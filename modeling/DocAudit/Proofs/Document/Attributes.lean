import DocAudit.FrontMatter
import DocAudit.Proofs.Text.Order
import DocAudit.Proofs.Yaml.Keys

/-!
# What a block is read as

The attributes of a block are an ordered map.  Its keys are the string keys of
the mapping that the block holds, and only those, in strict order of their
octets.  A mapping has no key twice, and so no entry is lost and none of them
takes the place of another one.

**Results.**
* `ofEntries_keysAscend`, `mem_ofEntries`: the attributes of a mapping are its
  entries with a string key, and their keys ascend.
* `reads_ofBlock?`: what every text is read as, whether it is blank, null, a
  mapping, or anything else.
-/

namespace DocAudit

namespace Text

/-- The order of texts is the order of their octets. -/
theorem le_iff_encode_le (s t : Text) : le s t = true ↔ Utf8.encode s ≤ Utf8.encode t := by
  constructor
  · intro h
    by_cases hst : s = t
    · rw [hst]
      exact List.le_refl _
    · exact List.le_of_lt (Utf8.encode_lt_of_le h hst)
  · intro h
    cases hle : le s t with
    | true => rfl
    | false => exact absurd (Utf8.encode_lt_of_not_le hle) (List.not_lt.2 h)

theorem le_trans {r s t : Text} (hrs : le r s = true) (hst : le s t = true) :
    le r t = true := by
  rw [le_iff_encode_le] at hrs hst ⊢
  exact List.le_trans hrs hst

theorem le_total (s t : Text) : (le s t || le t s) = true := by
  rw [Bool.or_eq_true, le_iff_encode_le, le_iff_encode_le]
  exact List.le_total _ _

end Text

namespace Attributes

/-- The keys stand in strict order of their octets. -/
def KeysAscend (attributes : Attributes) : Prop :=
  attributes.Pairwise fun entry later => Utf8.encode entry.1 < Utf8.encode later.1

theorem ofEntry?_eq_some_iff {entry : Yaml.Value × Yaml.Value} {key : Text} {value : Yaml.Value} :
    ofEntry? entry = some (key, value) ↔ entry = (.str key, value) := by
  constructor
  · intro h
    unfold ofEntry? at h
    split at h
    · cases h
      rfl
    · cases h
  · intro h
    rw [h]
    rfl

/-- The attributes of a mapping are its entries with a string key. -/
theorem mem_ofEntries {entries : List (Yaml.Value × Yaml.Value)} {key : Text}
    {value : Yaml.Value} : (key, value) ∈ ofEntries entries ↔ (.str key, value) ∈ entries := by
  rw [ofEntries, List.mem_mergeSort, List.mem_filterMap]
  constructor
  · rintro ⟨entry, hentry, hof⟩
    rw [ofEntry?_eq_some_iff.1 hof] at hentry
    exact hentry
  · intro hentry
    exact ⟨(.str key, value), hentry, rfl⟩

/-- String keys that are not the same key are different texts. -/
theorem ne_of_not_same {s t : Text} (h : Yaml.Value.same (.str s) (.str t) = false) : s ≠ t := by
  intro he
  rw [Yaml.Value.same, he, beq_self_eq_true] at h
  cases h

theorem pairwise_ne_filterMap {entries : List (Yaml.Value × Yaml.Value)}
    (h : Yaml.Value.DistinctKeys entries) :
    (entries.filterMap ofEntry?).Pairwise fun entry later => entry.1 ≠ later.1 := by
  rw [List.pairwise_filterMap]
  refine h.imp ?_
  rintro entry later hsame ⟨key, value⟩ hentry ⟨laterKey, laterValue⟩ hlater
  rw [ofEntry?_eq_some_iff.1 hentry, ofEntry?_eq_some_iff.1 hlater] at hsame
  exact ne_of_not_same hsame

/-- Where no key comes twice, the keys of the attributes ascend. -/
theorem ofEntries_keysAscend {entries : List (Yaml.Value × Yaml.Value)}
    (h : Yaml.Value.DistinctKeys entries) : (ofEntries entries).KeysAscend := by
  have hordered : (ofEntries entries).Pairwise fun entry later =>
      Text.le entry.1 later.1 = true := by
    refine List.pairwise_mergeSort ?_ ?_ _
    · intro first second third hfirst hsecond
      exact Text.le_trans hfirst hsecond
    · intro first second
      exact Text.le_total first.1 second.1
  have hdistinct : (ofEntries entries).Pairwise fun entry later => entry.1 ≠ later.1 :=
    (List.mergeSort_perm _ _).symm.pairwise (pairwise_ne_filterMap h) Ne.symm
  refine (hordered.and hdistinct).imp ?_
  rintro entry later ⟨hle, hne⟩
  exact Utf8.encode_lt_of_le hle hne

/-- What a block is read as. -/
inductive Reads (raw : Text) : Option Attributes → Prop
  /-- White space holds no attributes. -/
  | blank (hblank : ∀ c ∈ raw, Text.isSpace c = true) : Reads raw (some [])
  /-- So does a null. -/
  | null (hfilled : ∃ c ∈ raw, Text.isSpace c = false)
      (hnull : Yaml.Value.ofStream? raw = some .null) : Reads raw (some [])
  /-- A mapping holds its entries with a string key, and only those. -/
  | mapping {entries : List (Yaml.Value × Yaml.Value)} {attributes : Attributes}
      (hfilled : ∃ c ∈ raw, Text.isSpace c = false)
      (hmapping : Yaml.Value.ofStream? raw = some (.map entries))
      (hascend : attributes.KeysAscend)
      (hentries : ∀ key value, (key, value) ∈ attributes ↔ (.str key, value) ∈ entries) :
      Reads raw (some attributes)
  /-- Malformed YAML and every other value have no attributes. -/
  | other (hfilled : ∃ c ∈ raw, Text.isSpace c = false)
      (hnull : Yaml.Value.ofStream? raw ≠ some .null)
      (hmapping : ∀ entries, Yaml.Value.ofStream? raw ≠ some (.map entries)) : Reads raw none

/-- What every text is read as. -/
theorem reads_ofBlock? (raw : Text) : Reads raw (ofBlock? raw) := by
  unfold ofBlock?
  split
  · rename_i hblank
    exact .blank (List.all_eq_true.1 hblank)
  · rename_i hnotBlank
    have hfilled : ∃ c ∈ raw, Text.isSpace c = false := by
      rw [List.all_eq_true] at hnotBlank
      simpa using hnotBlank
    split
    · rename_i entries hmapping
      have hdistinct : Yaml.Value.DistinctKeys entries :=
        Yaml.Value.hasDistinctKeys_of_ofStream? hmapping
      exact .mapping hfilled hmapping (ofEntries_keysAscend hdistinct) fun _ _ => mem_ofEntries
    · rename_i hnull
      exact .null hfilled hnull
    · rename_i hnull hmapping
      exact .other hfilled hmapping hnull

end Attributes

end DocAudit

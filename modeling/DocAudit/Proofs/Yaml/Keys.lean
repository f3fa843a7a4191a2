import DocAudit.Yaml.Value

/-!
# Keys of a mapping

A key that is the same as an earlier key of its mapping stops the reading.  The
mapping that a stream stands for has therefore no key twice.

**Results.**
* `distinctKeys_of_readEntries?`: the entries that are read have different keys.
* `hasDistinctKeys_of_ofStream?`: the mapping that a stream stands for has
  different keys.
-/

namespace DocAudit
namespace Yaml
namespace Value

/-- The keys of entries differ. -/
def DistinctKeys (entries : List (Value × Value)) : Prop :=
  entries.Pairwise fun entry later => same entry.1 later.1 = false

/-- A value that is a mapping has no key twice. -/
def HasDistinctKeys : Value → Prop
  | map entries => DistinctKeys entries
  | _ => True

/-- Entries that are read behind entries with different keys have different keys, too. -/
theorem distinctKeys_of_readEntries? {read? : Reader} {tagged : Bool}
    {seen found : List (Value × Value)} {entries : List (Node Nat × Node Nat)} {uses after : Nat}
    (hseen : DistinctKeys seen)
    (h : readEntries? read? tagged seen entries uses = some (found, after)) :
    DistinctKeys found := by
  induction entries generalizing seen uses with
  | nil =>
      cases h
      exact hseen
  | cons entry entries ih =>
      obtain ⟨k, v⟩ := entry
      simp only [readEntries?, Option.bind_eq_bind, Option.bind_eq_some_iff] at h
      obtain ⟨⟨key, used⟩, hkey, h⟩ := h
      simp only at h
      split at h
      · cases h
      · rename_i hnew
        simp only [Option.bind_eq_some_iff] at h
        obtain ⟨⟨value, usedAfter⟩, hvalue, h⟩ := h
        refine ih ?_ h
        rw [DistinctKeys, List.pairwise_append]
        refine ⟨hseen, List.pairwise_singleton _ _, ?_⟩
        intro first hfirst last hlast
        rw [List.mem_singleton.1 hlast]
        exact Bool.eq_false_iff.2 fun hsame => hnew (List.any_eq_true.2 ⟨first, hfirst, hsame⟩)

theorem hasDistinctKeys_of_ofInteger? {n : Scalar.Integer} {value : Value}
    (h : Scalar.ofInteger? n = some value) : value.HasDistinctKeys := by
  cases n with
  | fits n => cases h; trivial
  | tooWide => cases h

theorem hasDistinctKeys_of_plain? {s : Text} {value : Value} (h : Scalar.plain? s = some value) :
    value.HasDistinctKeys := by
  unfold Scalar.plain? at h
  split at h
  · cases h; trivial
  · split at h
    · cases h; trivial
    · split at h
      · exact hasDistinctKeys_of_ofInteger? h
      · split at h
        · cases h; trivial
        · split at h <;> cases h <;> trivial

/-- A scalar is no mapping. -/
theorem hasDistinctKeys_of_scalar {plain tagged : Bool} {tag : Option Octets} {s : Text}
    {value : Value} (h : Scalar.value? plain tagged tag s = some value) :
    value.HasDistinctKeys := by
  unfold Scalar.value? at h
  split at h
  · split at h
    · exact hasDistinctKeys_of_plain? h
    · cases h; trivial
  · split at h
    · obtain ⟨_, _, rfl⟩ := Option.map_eq_some_iff.1 h
      trivial
    · split at h
      · obtain ⟨_, _, hinteger⟩ := Option.bind_eq_some_iff.1 h
        exact hasDistinctKeys_of_ofInteger? hinteger
      · split at h
        · obtain ⟨_, _, rfl⟩ := Option.map_eq_some_iff.1 h
          trivial
        · split at h
          · split at h <;> cases h
            trivial
          · split at h
            · exact hasDistinctKeys_of_plain? h
            · cases h; trivial

/-- What is read of the content of a node. -/
theorem hasDistinctKeys_of_readContent? {read? : Option Reader} {tagged : Bool} {node : Node Nat}
    {uses after : Nat} {value : Value}
    (h : readContent? read? tagged node uses = some (value, after)) : value.HasDistinctKeys := by
  cases node with
  | reference n => cases h
  | scalar p plain content =>
      obtain ⟨scalar, hscalar, he⟩ := Option.map_eq_some_iff.1 h
      cases he
      exact hasDistinctKeys_of_scalar hscalar
  | sequence p items =>
      simp only [readContent?, Option.bind_eq_bind, Option.bind_eq_some_iff] at h
      obtain ⟨_, _, ⟨_, _⟩, _, he⟩ := h
      cases he
      trivial
  | mapping p entries =>
      simp only [readContent?, Option.bind_eq_bind, Option.bind_eq_some_iff] at h
      obtain ⟨_, _, ⟨_, _⟩, hentries, he⟩ := h
      cases he
      exact distinctKeys_of_readEntries? List.Pairwise.nil hentries

theorem hasDistinctKeys_of_readNode? {read? : Option Reader} {tagged : Bool} {node : Node Nat}
    {uses after : Nat} {value : Value}
    (h : readNode? read? tagged node uses = some (value, after)) : value.HasDistinctKeys := by
  unfold readNode? at h
  split at h
  · obtain ⟨_, _, he⟩ := Option.map_eq_some_iff.1 h
    cases he
    trivial
  · exact hasDistinctKeys_of_readContent? h

theorem hasDistinctKeys_of_readTarget? {table : Table} {limit : Nat} {read? : Option Reader}
    {tagged : Bool} {node : Node Nat} {uses after : Nat} {value : Value}
    (h : readTarget? table limit read? tagged node uses = some (value, after)) :
    value.HasDistinctKeys := by
  unfold readTarget? at h
  split at h
  · simp only [Option.bind_eq_bind] at h
    split at h
    · cases h
    · obtain ⟨_, _, hnode⟩ := Option.bind_eq_some_iff.1 h
      exact hasDistinctKeys_of_readNode? hnode
  · exact hasDistinctKeys_of_readNode? h

/-- The mapping that a stream stands for has no key twice. -/
theorem hasDistinctKeys_of_ofStream? {stream : Text} {value : Value}
    (h : ofStream? stream = some value) : value.HasDistinctKeys := by
  simp only [ofStream?, Option.bind_eq_bind, Option.bind_eq_some_iff] at h
  obtain ⟨tokens, _, node, _, h⟩ := h
  cases node with
  | none =>
      cases h
      trivial
  | some root =>
      simp only [ofNode?, Option.bind_eq_bind, Option.bind_eq_some_iff] at h
      obtain ⟨⟨root, table⟩, _, ⟨found, uses⟩, hread, he⟩ := h
      cases he
      exact hasDistinctKeys_of_readTarget? hread

end Value
end Yaml
end DocAudit

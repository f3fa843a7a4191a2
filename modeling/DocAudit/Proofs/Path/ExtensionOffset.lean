import DocAudit.Proofs.Path.Extension
import DocAudit.Proofs.Text.Offset

/-!
# Extensions by offsets

The extension of a name is cut out of it at offsets in octets: behind the dots
that open the name, and at the last dot from there on.  The first offset is the
number of octets that the name has more than what stands behind those dots, and
the second one is counted from the first.  Both are boundaries, however many
octets the characters in between have, so that cutting never fails.

**Results.**
* `isBoundary_of_mem_offsets`: a name can be cut at its offsets.
* `sliced?_eq`: what is cut out is the extension.
* `extension?_splits`: a path splits in one way into a stem and its extension.
-/

namespace DocAudit

namespace Extension

/-- What stands behind the dots that open a name. -/
def afterDots (name : Text) : Text := name.dropWhile (· == '.')

/-- The offset behind the dots that open a name. -/
def start (name : Text) : Nat := Text.octetCount name - Text.octetCount (afterDots name)

/-- The offsets at which a name is cut: behind the dots that open it, and at the last dot from there
on. -/
def offsets (name : Text) : List Nat :=
  start name :: ((Text.lastOffset? '.' (afterDots name)).map (start name + ·)).toList

/-- The extension of a name, cut out at the offsets.  Where the name cannot be cut there is no
answer, not even that there is no extension. -/
def sliced? (name : Text) : Option (Option Text) :=
  if name = text ".." then some none
  else
    (Text.sliceFrom? name (start name)).bind fun rest =>
      match Text.lastOffset? '.' rest with
      | none => some none
      | some offset => (Text.sliceFrom? name (start name + offset)).map some

theorem takeWhile_append_afterDots (name : Text) :
    name.takeWhile (· == '.') ++ afterDots name = name :=
  List.takeWhile_append_dropWhile

/-- The octets in front of the first offset are those of the dots that open the name. -/
theorem start_eq (name : Text) : start name = Text.octetCount (name.takeWhile (· == '.')) := by
  have hname := congrArg Text.octetCount (takeWhile_append_afterDots name)
  rw [Text.octetCount_append] at hname
  rw [start]
  omega

theorem start_add_octetCount (name : Text) :
    start name + Text.octetCount (afterDots name) = Text.octetCount name := by
  rw [start_eq, ← Text.octetCount_append, takeWhile_append_afterDots]

/-- Offsets behind the dots that open a name are offsets of the name, counted from there. -/
theorem sliceFrom?_start_add {name front rest : Text} (h : afterDots name = front ++ rest) :
    Text.sliceFrom? name (start name + Text.octetCount front) = some rest := by
  refine Text.sliceFrom?_eq_some_iff.2 ⟨name.takeWhile (· == '.') ++ front, ?_, ?_⟩
  · rw [List.append_assoc, ← h, takeWhile_append_afterDots]
  · rw [Text.octetCount_append, start_eq]

theorem sliceFrom?_start (name : Text) :
    Text.sliceFrom? name (start name) = some (afterDots name) :=
  sliceFrom?_start_add (List.nil_append _).symm

/-- Either no dot stands behind those that open a name, or the offset of the last one cuts out what
the name has from there on. -/
theorem lastOffset?_cases (name : Text) :
    (Text.lastOffset? '.' (afterDots name) = none ∧ fromLastDot? (afterDots name) = none)
      ∨ ∃ offset extension, Text.lastOffset? '.' (afterDots name) = some offset
        ∧ fromLastDot? (afterDots name) = some extension
        ∧ Text.sliceFrom? name (start name + offset) = some extension := by
  by_cases hdot : '.' ∈ afterDots name
  · obtain ⟨front, rest, hname, hrest⟩ := exists_append_of_mem hdot
    refine Or.inr ⟨Text.octetCount front, '.' :: rest, ?_, ?_, sliceFrom?_start_add hname⟩
    · rw [hname, Text.lastOffset?_append hrest]
    · rw [hname, fromLastDot?_append_dot hrest]
  · exact Or.inl ⟨Text.lastOffset?_of_notMem hdot, fromLastDot?_of_notMem hdot⟩

/-- A name can be cut at its offsets. -/
theorem isBoundary_of_mem_offsets {name : Text} {offset : Nat} (h : offset ∈ offsets name) :
    Text.IsBoundary name offset := by
  rw [Text.isBoundary_iff_isSome, Option.isSome_iff_exists]
  rcases List.mem_cons.1 h with rfl | h
  · exact ⟨afterDots name, sliceFrom?_start name⟩
  · rcases lastOffset?_cases name with ⟨hnone, _⟩ | ⟨last, extension, hlast, _, hslice⟩
    · rw [hnone] at h
      cases h
    · rw [hlast, Option.map_some, Option.toList_some, List.mem_singleton] at h
      exact ⟨extension, by rw [h, hslice]⟩

/-- Cutting a name at its offsets does not fail, and what is cut out is what the name has from its
last dot on. -/
theorem sliced?_eq (name : Text) : sliced? name = some (fromLastDot? (afterDots name)) := by
  unfold sliced?
  split
  · rename_i hup
    rw [hup]
    decide
  · rw [sliceFrom?_start, Option.bind_some]
    rcases lastOffset?_cases name with ⟨hnone, hfrom⟩ | ⟨last, extension, hlast, hfrom, hslice⟩
    · simp only [hnone, hfrom]
    · simp only [hlast, hslice, hfrom, Option.map_some]

end Extension

/-- A path splits in one way. -/
theorem SplitsInto.unique {path stem stem' extension extension' : Text}
    (h : SplitsInto path stem extension) (h' : SplitsInto path stem' extension') :
    stem = stem' ∧ extension = extension' := by
  have hextension : some extension = some extension' := by
    rw [← extension?_eq_some_iff.2 ⟨stem, h⟩, extension?_eq_some_iff.2 ⟨stem', h'⟩]
  obtain rfl := Option.some.inj hextension
  have hstem : stem ++ extension = stem' ++ extension := by rw [← h.eq_append, h'.eq_append]
  exact ⟨List.append_cancel_right hstem, rfl⟩

/-- **The extension splits the last segment.**  The extension of a path is the second part of a
split of the path, which has a dot first, no other dot and no slash, behind a last segment with a
character other than a dot.  There is one such split at most, and without one there is no
extension.  The offsets at which the last segment is cut are boundaries of it, so that cutting does
not fail, and what is cut out is the extension. -/
theorem extension?_splits (path : Text) :
    (∀ extension, extension? path = some extension ↔ ∃ stem, SplitsInto path stem extension)
      ∧ (∀ stem stem' extension extension', SplitsInto path stem extension →
        SplitsInto path stem' extension' → stem = stem' ∧ extension = extension')
      ∧ (extension? path = none ↔ ∀ stem extension, ¬ SplitsInto path stem extension)
      ∧ (let name := Extension.lastSegment path
        Extension.start name + Text.octetCount (Extension.afterDots name) = Text.octetCount name
          ∧ (∀ offset ∈ Extension.offsets name, Text.IsBoundary name offset)
          ∧ Extension.sliced? name = some (extension? path)) := by
  refine ⟨fun extension => extension?_eq_some_iff, fun _ _ _ _ => SplitsInto.unique, ?_,
    Extension.start_add_octetCount _, fun _ => Extension.isBoundary_of_mem_offsets, ?_⟩
  · rw [Option.eq_none_iff_forall_ne_some]
    constructor
    · exact fun h stem extension hsplit => h extension (extension?_eq_some_iff.2 ⟨stem, hsplit⟩)
    · intro h extension he
      obtain ⟨stem, hsplit⟩ := extension?_eq_some_iff.1 he
      exact h stem extension hsplit
  · rw [Extension.sliced?_eq, extension?_eq]
    rfl

/-- A path with dots in its directory, with dots that open its name, and with characters of two
octets on either side of its last dot. -/
def accentedPath : Text := text "v1.2/..été.tar.gž"

theorem extension?_splits_accentedPath :
    SplitsInto accentedPath (text "v1.2/..été.tar") (text ".gž")
      ∧ extension? accentedPath = some (text ".gž")
      ∧ (∀ stem extension, SplitsInto accentedPath stem extension →
        stem = text "v1.2/..été.tar" ∧ extension = text ".gž")
      ∧ Extension.offsets (Extension.lastSegment accentedPath) = [2, 11]
      ∧ Text.IsBoundary (Extension.lastSegment accentedPath) 11 := by
  have hsplit : SplitsInto accentedPath (text "v1.2/..été.tar") (text ".gž") :=
    ⟨by decide, ⟨text "gž", by decide, by decide⟩, by decide,
      text "..été.tar", ⟨by decide, Or.inr ⟨text "v1.2", by decide⟩⟩, 't', by decide, by decide⟩
  have hoffsets : Extension.offsets (Extension.lastSegment accentedPath) = [2, 11] := by decide
  obtain ⟨hextension, hunique, _, _, hboundary, _⟩ := extension?_splits accentedPath
  refine ⟨hsplit, (hextension _).2 ⟨_, hsplit⟩, fun stem extension h => hunique _ _ _ _ h hsplit,
    hoffsets, hboundary 11 ?_⟩
  rw [hoffsets]
  decide

/-- A name of nothing but dots, a hidden name with a dot at its end, and a path with no last name.
-/
example :
    [text "...", text "..a.", text ".git/"].map extension? = [none, some (text "."), none] := by
  decide

end DocAudit

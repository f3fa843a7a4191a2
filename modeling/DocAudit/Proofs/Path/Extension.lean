import DocAudit.Extension
import DocAudit.Proofs.Text.Cut

/-!
# Extensions of paths

The extension of a path is that of its last segment, and it starts at the last
dot, whatever is written before that dot, as long as something other than dots
is.  A path has an extension exactly if it can be split in this way, and there
is one split at most.

**Results.**
* `isLastSegment_iff`: the last segment is what stands behind the last slash.
* `extension?_eq_some_iff`: the extension is the second part of a split path.
* `extension?_joinWith_concat`: the extension of a path is that of its last name.
* `extension?_append`: an extension written behind a name is the extension.
* `suffix_of_extension?`: the extension of a path is the end of the path.
-/

namespace DocAudit
namespace Extension

/-! ### The last dot -/

/-- What is written before the last dot does not move it. -/
theorem fromLastDot?_append (s : Text) {t extension : Text}
    (h : fromLastDot? t = some extension) : fromLastDot? (s ++ t) = some extension := by
  induction s with
  | nil => exact h
  | cons c s ih => rw [List.cons_append, fromLastDot?, ih]

theorem fromLastDot?_of_notMem {t : Text} (h : '.' ∉ t) : fromLastDot? t = none := by
  induction t with
  | nil => rfl
  | cons c t ih =>
      have hc : ¬ c = '.' := fun e => h (e ▸ List.mem_cons_self)
      have ht : '.' ∉ t := fun hm => h (List.mem_cons_of_mem c hm)
      rw [fromLastDot?, ih ht, if_neg hc]

/-- A dot that no dot follows is the last one. -/
theorem fromLastDot?_append_dot {rest : Text} (h : '.' ∉ rest) (front : Text) :
    fromLastDot? (front ++ '.' :: rest) = some ('.' :: rest) := by
  apply fromLastDot?_append
  rw [fromLastDot?, fromLastDot?_of_notMem h]
  exact if_pos rfl

theorem exists_append_of_mem {name : Text} (h : '.' ∈ name) :
    ∃ front rest, name = front ++ '.' :: rest ∧ '.' ∉ rest := by
  induction name with
  | nil => cases h
  | cons c name ih =>
      by_cases hname : '.' ∈ name
      · obtain ⟨front, rest, rfl, hrest⟩ := ih hname
        exact ⟨c :: front, rest, rfl, hrest⟩
      · obtain rfl : '.' = c := (List.mem_cons.1 h).resolve_right hname
        exact ⟨[], name, rfl, hname⟩

/-- What a name has from its last dot on is a dot and no other one. -/
theorem exists_append_of_fromLastDot? {name extension : Text}
    (h : fromLastDot? name = some extension) :
    ∃ front rest, name = front ++ '.' :: rest ∧ '.' ∉ rest ∧ extension = '.' :: rest := by
  by_cases hname : '.' ∈ name
  · obtain ⟨front, rest, rfl, hrest⟩ := exists_append_of_mem hname
    rw [fromLastDot?_append_dot hrest, Option.some.injEq] at h
    exact ⟨front, rest, rfl, hrest, h.symm⟩
  · rw [fromLastDot?_of_notMem hname] at h
    cases h

/-! ### The last segment -/

theorem lastSegment_of_notMem {t : Text} (h : '/' ∉ t) : lastSegment t = t := by
  have hall := Text.bne_of_notMem fun hm => h (List.mem_reverse.1 hm)
  rw [lastSegment, List.takeWhile_eq_self_iff.2 hall, List.reverse_reverse]

theorem lastSegment_append {t : Text} (h : '/' ∉ t) (s : Text) :
    lastSegment (s ++ '/' :: t) = t := by
  have hall := Text.bne_of_notMem fun hm => h (List.mem_reverse.1 hm)
  have hreverse : (s ++ '/' :: t).reverse = t.reverse ++ '/' :: s.reverse := by simp
  rw [lastSegment, hreverse, Text.takeWhile_run hall (by decide), List.reverse_reverse]

/-- The last segment of joined names is the last name. -/
theorem lastSegment_joinWith_concat {name : Text} (h : '/' ∉ name) (names : List Text) :
    lastSegment (Text.joinWith ['/'] (names ++ [name])) = name := by
  by_cases hnames : names = []
  · rw [hnames]
    exact lastSegment_of_notMem h
  · rw [Text.joinWith_append _ hnames (List.cons_ne_nil _ _), List.append_assoc]
    exact lastSegment_append h _

/-- What stands behind the last slash of a path, and all of a path without a slash. -/
def IsLastSegment (path segment : Text) : Prop :=
  '/' ∉ segment ∧ (path = segment ∨ ∃ directory, path = directory ++ '/' :: segment)

theorem isLastSegment_lastSegment (path : Text) : IsLastSegment path (lastSegment path) := by
  have hslash : '/' ∉ lastSegment path := by
    intro hm
    have hne := List.all_eq_true.1 List.all_takeWhile _ (List.mem_reverse.1 hm)
    exact absurd hne (by decide)
  have hpath : path = (path.reverse.dropWhile (· != '/')).reverse ++ lastSegment path := by
    rw [lastSegment, ← List.reverse_append, List.takeWhile_append_dropWhile, List.reverse_reverse]
  refine ⟨hslash, ?_⟩
  cases hrest : path.reverse.dropWhile (· != '/') with
  | nil =>
      rw [hrest] at hpath
      exact Or.inl hpath
  | cons c rest =>
      have hc := List.head?_dropWhile_not (· != '/') path.reverse
      rw [hrest] at hc hpath
      obtain rfl : c = '/' := by simpa using hc
      refine Or.inr ⟨rest.reverse, ?_⟩
      rwa [List.reverse_cons, List.append_assoc, List.singleton_append] at hpath

theorem isLastSegment_iff {path segment : Text} :
    IsLastSegment path segment ↔ lastSegment path = segment := by
  constructor
  · rintro ⟨hslash, rfl | ⟨directory, rfl⟩⟩
    · exact lastSegment_of_notMem hslash
    · exact lastSegment_append hslash directory
  · rintro rfl
    exact isLastSegment_lastSegment path

/-- What is written behind a path without a slash goes to its last segment. -/
theorem IsLastSegment.append {path segment t : Text} (h : IsLastSegment path segment)
    (ht : '/' ∉ t) : IsLastSegment (path ++ t) (segment ++ t) := by
  obtain ⟨hslash, hpath⟩ := h
  refine ⟨fun hm => (List.mem_append.1 hm).elim hslash ht, ?_⟩
  rcases hpath with rfl | ⟨directory, rfl⟩
  · exact Or.inl rfl
  · exact Or.inr ⟨directory, List.append_assoc _ _ _⟩

/-- What is taken off the end of the last segment is taken off the path. -/
theorem IsLastSegment.of_append {path segment t : Text} (h : IsLastSegment path (segment ++ t)) :
    ∃ stem, path = stem ++ t ∧ IsLastSegment stem segment := by
  obtain ⟨hslash, hpath⟩ := h
  have hsegment : '/' ∉ segment := fun hm => hslash (List.mem_append_left t hm)
  rcases hpath with rfl | ⟨directory, rfl⟩
  · exact ⟨segment, rfl, hsegment, Or.inl rfl⟩
  · refine ⟨directory ++ '/' :: segment, ?_, hsegment, Or.inr ⟨directory, rfl⟩⟩
    rw [List.append_assoc, List.cons_append]

end Extension

/-! ### The extension -/

/-- A path that is a stem with an extension behind it: from the last dot on, and with more than dots
in front of it. -/
structure SplitsInto (path stem extension : Text) : Prop where
  eq_append : path = stem ++ extension
  dot : ∃ rest, extension = '.' :: rest ∧ '.' ∉ rest
  no_slash : '/' ∉ extension
  named : ∃ segment, Extension.IsLastSegment stem segment ∧ ∃ c ∈ segment, c ≠ '.'

/-- A path splits where its last segment does. -/
theorem exists_splitsInto_iff {path extension : Text} :
    (∃ stem, SplitsInto path stem extension)
      ↔ ∃ segment rest, Extension.lastSegment path = segment ++ extension
        ∧ extension = '.' :: rest ∧ '.' ∉ rest ∧ ∃ c ∈ segment, c ≠ '.' := by
  constructor
  · rintro ⟨stem, rfl, ⟨rest, hextension, hrest⟩, hslash, segment, hsegment, hnamed⟩
    exact ⟨segment, rest, Extension.isLastSegment_iff.1 (hsegment.append hslash), hextension,
      hrest, hnamed⟩
  · rintro ⟨segment, rest, hsegment, hextension, hrest, hnamed⟩
    have hlast := Extension.isLastSegment_iff.2 hsegment
    obtain ⟨stem, rfl, hstem⟩ := hlast.of_append
    exact ⟨stem, rfl, ⟨rest, hextension, hrest⟩,
      fun hm => hlast.1 (List.mem_append_right segment hm), segment, hstem, hnamed⟩

/-- The name `..` is nothing but dots that open it, so that it needs no test of its own. -/
theorem extension?_eq (path : Text) :
    extension? path
      = Extension.fromLastDot? ((Extension.lastSegment path).dropWhile (· == '.')) := by
  unfold extension?
  simp only
  split
  · rename_i hup
    rw [hup]
    decide
  · rfl

/-- The extension of a path is the second part of the split path. -/
theorem extension?_eq_some_iff {path extension : Text} :
    extension? path = some extension ↔ ∃ stem, SplitsInto path stem extension := by
  rw [exists_splitsInto_iff, extension?_eq]
  generalize Extension.lastSegment path = name
  constructor
  · intro h
    obtain ⟨front, rest, hvisible, hrest, rfl⟩ := Extension.exists_append_of_fromLastDot? h
    have hfirst := List.head?_dropWhile_not (· == '.') name
    rw [hvisible] at hfirst
    cases front with
    | nil => simp at hfirst
    | cons c front =>
        refine ⟨name.takeWhile (· == '.') ++ c :: front, rest, ?_, rfl, hrest, c,
          List.mem_append_right _ List.mem_cons_self, by simpa using hfirst⟩
        rw [List.append_assoc, ← hvisible, List.takeWhile_append_dropWhile]
  · rintro ⟨segment, rest, rfl, rfl, hrest, c, hc, hdot⟩
    rw [Text.dropWhile_append_of_mem hc (by simpa using hdot)]
    exact Extension.fromLastDot?_append_dot hrest _

/-- The extension of a path is the end of the path. -/
theorem suffix_of_extension? {path extension : Text} (h : extension? path = some extension) :
    extension <:+ path := by
  obtain ⟨stem, hsplit⟩ := extension?_eq_some_iff.1 h
  exact ⟨stem, hsplit.eq_append.symm⟩

/-- A path whose last segment has no dot has no extension. -/
theorem extension?_of_notMem {path : Text} (h : '.' ∉ Extension.lastSegment path) :
    extension? path = none := by
  have hdots : '.' ∉ (Extension.lastSegment path).dropWhile (· == '.') :=
    fun hm => h ((List.dropWhile_sublist _).mem hm)
  rw [extension?, Extension.fromLastDot?_of_notMem hdots, ite_self]

/-- The extension of a path is the extension of its last name. -/
theorem extension?_joinWith_concat {name : Text} (h : '/' ∉ name) (names : List Text) :
    extension? (Text.joinWith ['/'] (names ++ [name])) = extension? name := by
  rw [extension?, extension?, Extension.lastSegment_joinWith_concat h,
    Extension.lastSegment_of_notMem h]

/-- An extension that is written behind a name is its extension, unless the name starts with a
dot. -/
theorem extension?_append {name extension : Text} (hname : name ≠ [])
    (hhidden : name.head? ≠ some '.') (hslash : '/' ∉ name ++ extension)
    (hextension : Extension.fromLastDot? extension = some extension) :
    extension? (name ++ extension) = some extension := by
  obtain ⟨c, name, rfl⟩ := List.exists_cons_of_ne_nil hname
  have hc : c ≠ '.' := fun e => hhidden (by rw [e]; rfl)
  obtain ⟨_, rest, _, hrest, hdot⟩ := Extension.exists_append_of_fromLastDot? hextension
  exact extension?_eq_some_iff.2 <| exists_splitsInto_iff.2 ⟨c :: name, rest,
    Extension.lastSegment_of_notMem hslash, hdot, hrest, c, List.mem_cons_self, hc⟩

end DocAudit

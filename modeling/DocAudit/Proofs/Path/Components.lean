import DocAudit.Document
import DocAudit.FileName
import DocAudit.Proofs.Text.Cut

/-!
# Components of paths that are put together

Paths are written by joining texts and compared by their components.  This
module says what joining, going to the directory above and writing down a place
do to the components.

A path that is absolute and has no step up shows a place, the list of its
names.  `place?` reads it off.

**Results.**
* `components_join_of_ne_nil`: joining a path that is not absolute appends
  components.
* `place?_directory`: the directory of a path loses the last name.
* `components_toPath`: a written place has its names as components.
* `toPath_append`: an extension goes to the last name.
* `relativeTo_toPath_append`: the relative path of what lies below a place.
-/

namespace DocAudit

namespace Path

/-- A text that can stand between two slashes and names an entry there. -/
structure IsSegment (s : Text) : Prop where
  ne_nil : s ≠ []
  ne_here : s ≠ ['.']
  ne_up : s ≠ ['.', '.']
  slash_notMem : '/' ∉ s

theorem ofSegment?_eq_name {s : Text} (h : IsSegment s) :
    Component.ofSegment? s = some (.name s) := by
  have hup : ¬ s = DocAudit.text ".." := h.ne_up
  simp only [Component.ofSegment?, h.ne_nil, h.ne_here, hup, or_self, if_false]

/-- A segment stays a segment when more is written behind it. -/
theorem IsSegment.append {s : Text} (h : IsSegment s) {extension : Text}
    (hslash : '/' ∉ extension) : IsSegment (s ++ extension) where
  ne_nil := by
    intro e
    exact h.ne_nil (List.append_eq_nil_iff.1 e).1
  ne_here := by
    intro e
    rcases List.append_eq_singleton_iff.1 e with ⟨hs, _⟩ | ⟨hs, _⟩
    · exact h.ne_nil hs
    · exact h.ne_here hs
  ne_up := by
    intro e
    match s, h with
    | [], h => exact h.ne_nil rfl
    | [c], h =>
        have hc : c = '.' := (List.cons.inj e).1
        exact h.ne_here (by rw [hc])
    | [c, d], h =>
        obtain ⟨hc, htail⟩ := List.cons.inj e
        exact h.ne_up (by rw [hc, (List.cons.inj htail).1])
    | _ :: _ :: _ :: _, _ => simp at e
  slash_notMem := by
    rw [List.mem_append, not_or]
    exact ⟨h.slash_notMem, hslash⟩

theorem innerComponents_append (first second : List Text) :
    innerComponents (first ++ second) = innerComponents first ++ innerComponents second :=
  List.filterMap_append

/-- Segments that name entries are components as they stand. -/
theorem innerComponents_of_isSegment {segments : List Text}
    (h : ∀ s ∈ segments, IsSegment s) :
    innerComponents segments = segments.map .name := by
  induction segments with
  | nil => rfl
  | cons s segments ih =>
      have hs := ofSegment?_eq_name (h s List.mem_cons_self)
      have hrest := ih fun t ht => h t (List.mem_cons_of_mem s ht)
      rw [innerComponents] at hrest ⊢
      rw [List.filterMap_cons_some hs, hrest, List.map_cons]

/-- A name among the components of a text is one of its segments. -/
theorem isSegment_of_mem_innerComponents {t s : Text}
    (h : Component.name s ∈ innerComponents (Text.splitOn '/' t)) : IsSegment s := by
  obtain ⟨segment, hmem, hs⟩ := List.mem_filterMap.1 h
  have hslash := Text.notMem_of_mem_splitOn hmem
  unfold Component.ofSegment? at hs
  split at hs
  · cases hs
  · rename_i hvoid
    split at hs
    · cases hs
    · rename_i hup
      cases hs
      rw [not_or] at hvoid
      exact ⟨hvoid.1, hvoid.2, hup, hslash⟩

/-- The components of an absolute path are the root and those of what follows the slash. -/
theorem components_slash (t : Text) :
    (⟨'/' :: t⟩ : Path).components = .root :: innerComponents (Text.splitOn '/' t) := by
  simp [components, isAbsolute, Text.splitOn, innerComponents, Component.ofSegment?]

/-- An absolute path starts with a slash. -/
theorem exists_slash_of_isAbsolute {p : Path} (h : p.isAbsolute = true) :
    ∃ t, p = ⟨'/' :: t⟩ := by
  obtain ⟨t⟩ := p
  cases t with
  | nil => cases h
  | cons c t =>
      have hc : c = '/' := by simpa [isAbsolute] using h
      exact ⟨t, by rw [hc]⟩

/-- Behind a slash the segments of a text go on as components. -/
theorem components_append_slash {t : Text} (ht : t ≠ []) (u : Text) :
    (⟨t ++ '/' :: u⟩ : Path).components
      = (⟨t⟩ : Path).components ++ innerComponents (Text.splitOn '/' u) := by
  have habsolute : (⟨t ++ '/' :: u⟩ : Path).isAbsolute = (⟨t⟩ : Path).isAbsolute := by
    obtain ⟨c, t, rfl⟩ := List.exists_cons_of_ne_nil ht
    rfl
  have hhead : (Text.splitOn '/' t ++ Text.splitOn '/' u).head? = (Text.splitOn '/' t).head? := by
    obtain ⟨segment, segments, hsplit⟩ :=
      List.exists_cons_of_ne_nil (Text.splitOn_ne_nil '/' t)
    rw [hsplit]
    rfl
  unfold components
  simp only [habsolute, Text.splitOn_append_cons, innerComponents_append, hhead]
  split
  · rfl
  · split <;> rfl

/-- Behind a path a path that is not absolute goes on. -/
theorem components_join_of_ne_nil {p q : Path} (hp : p.text ≠ []) (hq : q.isAbsolute = false) :
    (p.join q).components = p.components ++ innerComponents (Text.splitOn '/' q.text) := by
  simp only [join, hq, Bool.false_eq_true, if_false, hp, false_or]
  split
  · rename_i hlast
    obtain ⟨s, hs⟩ := List.getLast?_eq_some_iff.1 hlast
    obtain ⟨t⟩ := p
    change t = s ++ ['/'] at hs
    subst hs
    rw [List.append_assoc, List.singleton_append]
    cases s with
    | nil => rw [List.nil_append, components_slash]; rfl
    | cons c s =>
        have hslash : innerComponents (Text.splitOn '/' []) = [] := rfl
        rw [components_append_slash (List.cons_ne_nil c s),
          components_append_slash (List.cons_ne_nil c s), hslash, List.append_nil]
  · exact components_append_slash hp q.text

/-- Behind an absolute path a path that is not absolute goes on. -/
theorem components_join {p q : Path} (hp : p.isAbsolute = true) (hq : q.isAbsolute = false) :
    (p.join q).components = p.components ++ innerComponents (Text.splitOn '/' q.text) := by
  obtain ⟨t, rfl⟩ := exists_slash_of_isAbsolute hp
  exact components_join_of_ne_nil (List.cons_ne_nil _ _) hq

/-- Only the empty path has no component. -/
theorem components_eq_nil_iff (p : Path) : p.components = [] ↔ p.text = [] := by
  obtain ⟨t⟩ := p
  constructor
  · intro h
    cases t with
    | nil => rfl
    | cons c t =>
        exfalso
        by_cases hc : c = '/'
        · rw [hc, components_slash] at h
          cases h
        · obtain ⟨segment, segments, -, hsplit⟩ := Text.splitOn_cons_of_ne hc t
          have habsolute : (⟨c :: t⟩ : Path).isAbsolute = false := by simp [isAbsolute, hc]
          simp only [components, habsolute, Bool.false_eq_true, if_false, hsplit] at h
          split at h
          · cases h
          · rename_i hhere
            rw [innerComponents, List.filterMap_eq_nil_iff] at h
            have hnone := h _ List.mem_cons_self
            have hhere' : ¬ (c :: segment) = ['.'] := fun e => hhere (by rw [e]; rfl)
            simp only [Component.ofSegment?, hhere', List.cons_ne_nil, or_self, if_false] at hnone
            split at hnone <;> cases hnone
  · rintro rfl
    rfl

/-- What is joined to a path only counts the components of the path. -/
theorem components_join_congr {p other q : Path} (h : p.components = other.components)
    (hq : q.isAbsolute = false) : (p.join q).components = (other.join q).components := by
  have hnil : p.text = [] ↔ other.text = [] := by
    rw [← components_eq_nil_iff, ← components_eq_nil_iff, h]
  by_cases hp : p.text = []
  · have hempty : p.join q = other.join q := by
      simp only [join, hq, hp, hnil.1 hp, true_or, if_true]
    rw [hempty]
  · rw [components_join_of_ne_nil hp hq, components_join_of_ne_nil (mt hnil.2 hp) hq, h]

/-- The names of a path that is absolute and has no step up. -/
def place? (p : Path) : Option Place :=
  match p.components with
  | .root :: rest => rest.mapM Component.name?
  | _ => none

theorem mapM_name?_eq_some_iff (components : List Component) (names : List Text) :
    components.mapM Component.name? = some names ↔ components = names.map .name := by
  induction components generalizing names with
  | nil => cases names <;> simp
  | cons c components ih =>
      rw [List.mapM_cons]
      cases c with
      | name s =>
          cases names with
          | nil => simp [Component.name?, Option.bind_eq_some_iff]
          | cons t names =>
              simp only [Component.name?, Option.bind_eq_bind, Option.bind_some,
                Option.bind_eq_some_iff, ih, Option.pure_def, Option.some.injEq, List.cons.injEq,
                List.map_cons, Component.name.injEq]
              constructor
              · rintro ⟨rest, hrest, hs, rfl⟩
                exact ⟨hs, hrest⟩
              · rintro ⟨hs, hrest⟩
                exact ⟨names, hrest, hs, rfl⟩
      | root => cases names <;> simp [Component.name?]
      | here => cases names <;> simp [Component.name?]
      | up => cases names <;> simp [Component.name?]

/-- A path shows a place exactly when its components are the root and the names. -/
theorem place?_eq_some_iff (p : Path) (names : Place) :
    p.place? = some names ↔ p.components = .root :: names.map .name := by
  unfold place?
  split
  · rename_i rest hp
    rw [mapM_name?_eq_some_iff, hp, List.cons.injEq, and_iff_right rfl]
  · rename_i hp
    constructor
    · intro h
      cases h
    · intro h
      exact absurd h (hp _)

/-- A path that shows a place is absolute. -/
theorem isAbsolute_of_place? {p : Path} {names : Place} (h : p.place? = some names) :
    p.isAbsolute = true := by
  rw [place?_eq_some_iff] at h
  cases ha : p.isAbsolute with
  | true => rfl
  | false =>
      simp only [components, ha, Bool.false_eq_true, if_false] at h
      split at h
      · cases h
      · have hmem : Component.root ∈ innerComponents (Text.splitOn '/' p.text) := by
          rw [h]
          exact List.mem_cons_self
        obtain ⟨s, -, hs⟩ := List.mem_filterMap.1 hmem
        unfold Component.ofSegment? at hs
        split at hs
        · cases hs
        · split at hs <;> cases hs

/-- The names of a place that a path shows can stand between slashes. -/
theorem isSegment_of_mem_place? {p : Path} {names : Place} (h : p.place? = some names) :
    ∀ name ∈ names, IsSegment name := by
  intro name hname
  obtain ⟨t, rfl⟩ := exists_slash_of_isAbsolute (isAbsolute_of_place? h)
  rw [place?_eq_some_iff, components_slash, List.cons.injEq] at h
  apply isSegment_of_mem_innerComponents (t := t)
  rw [h.2]
  exact List.mem_map_of_mem hname

/-- Segments that make no component change nothing at the end of a row of them. -/
theorem innerComponents_reverse_dropWhile_isVoid (segments : List Text) :
    innerComponents (segments.dropWhile isVoid).reverse = innerComponents segments.reverse := by
  induction segments with
  | nil => rfl
  | cons s segments ih =>
      by_cases hs : isVoid s = true
      · have hvoid : Component.ofSegment? s = none := by
          rw [isVoid, Option.isNone_iff_eq_none] at hs
          exact hs
        rw [List.dropWhile_cons_of_pos hs, ih, List.reverse_cons, innerComponents_append]
        simp [innerComponents, hvoid]
      · rw [List.dropWhile_cons_of_neg hs]

/-- Joining segments and cutting them again changes no component. -/
theorem innerComponents_splitOn_joinWith {segments : List Text}
    (h : ∀ s ∈ segments, '/' ∉ s) :
    innerComponents (Text.splitOn '/' (Text.joinWith ['/'] segments))
      = innerComponents segments := by
  cases segments with
  | nil => rfl
  | cons s segments => rw [Text.splitOn_joinWith (List.cons_ne_nil _ _) h]

/-- The root has no directory above it, and any other path that shows a place shows it in the
directory of its names but the last. -/
theorem place?_parent? {p : Path} {names : Place} (h : p.place? = some names) :
    (names = [] ∧ p.parent? = none) ∨
      ∃ directory, p.parent? = some directory ∧ directory.place? = some names.dropLast := by
  obtain ⟨t, rfl⟩ := exists_slash_of_isAbsolute (isAbsolute_of_place? h)
  rw [place?_eq_some_iff, components_slash, List.cons.injEq] at h
  have hnames := h.2
  have hlead : lead ('/' :: t) = ['/'] := rfl
  simp only [parent?, hlead, List.length_singleton, List.drop_succ_cons, List.drop_zero]
  have hinner := innerComponents_reverse_dropWhile_isVoid (Text.splitOn '/' t).reverse
  rw [List.reverse_reverse, hnames] at hinner
  split
  · rename_i hvoid
    rw [hvoid] at hinner
    left
    exact ⟨List.map_eq_nil_iff.1 hinner.symm, by simp⟩
  · rename_i last outer hsegments
    right
    refine ⟨_, rfl, ?_⟩
    have hlast : isVoid last = false := by
      have := List.head?_dropWhile_not isVoid (Text.splitOn '/' t).reverse
      rw [hsegments, List.head?_cons] at this
      exact this
    obtain ⟨c, hc⟩ : ∃ c, Component.ofSegment? last = some c := by
      rw [isVoid, Option.isNone_eq_false_iff, Option.isSome_iff_exists] at hlast
      exact hlast
    have hsingle : innerComponents [last] = [c] := by simp [innerComponents, hc]
    rw [hsegments, List.reverse_cons, innerComponents_append, hsingle] at hinner
    have houter : innerComponents outer.reverse = names.dropLast.map .name := by
      rw [List.map_dropLast, ← hinner, List.dropLast_concat]
    have hslash : ∀ s ∈ (outer.dropWhile isVoid).reverse, '/' ∉ s := by
      intro s hs
      have hs1 : s ∈ last :: outer :=
        List.mem_cons_of_mem last ((List.dropWhile_sublist _).mem (List.mem_reverse.1 hs))
      rw [← hsegments] at hs1
      exact Text.notMem_of_mem_splitOn
        (List.mem_reverse.1 ((List.dropWhile_sublist _).mem hs1))
    rw [place?_eq_some_iff, List.singleton_append, components_slash,
      innerComponents_splitOn_joinWith hslash, innerComponents_reverse_dropWhile_isVoid, houter]

/-- A long segment is a name. -/
theorem ofSegment?_of_length {s : Text} (h : 2 < s.length) :
    Component.ofSegment? s = some (.name s) := by
  have hnil : s ≠ [] := by
    rintro rfl
    simp at h
  have hhere : s ≠ ['.'] := by
    rintro rfl
    simp at h
  have hup : s ≠ DocAudit.text ".." := by
    rintro rfl
    exact absurd h (by decide)
  simp only [Component.ofSegment?, hnil, hhere, hup, or_self, if_false]

/-- A path that an extension is written behind ends with a name that ends with the extension. -/
theorem exists_components_append {extension : Text} (hslash : '/' ∉ extension)
    (hlength : 2 < extension.length) (t : Text) :
    ∃ front name, '/' ∉ name
      ∧ (⟨t ++ extension⟩ : Path).components = front ++ [.name (name ++ extension)] := by
  obtain ⟨pieces, name, hname, hsplit⟩ := Text.splitOn_append hslash t
  have hlong : 2 < (name ++ extension).length := by
    rw [List.length_append]
    omega
  have hinner : innerComponents (Text.splitOn '/' (t ++ extension))
      = innerComponents pieces ++ [.name (name ++ extension)] := by
    rw [hsplit, innerComponents_append]
    simp [innerComponents, ofSegment?_of_length hlong]
  unfold components
  simp only [hinner]
  split
  · exact ⟨.root :: innerComponents pieces, name, hname, rfl⟩
  · split
    · exact ⟨.here :: innerComponents pieces, name, hname, rfl⟩
    · exact ⟨innerComponents pieces, name, hname, rfl⟩

theorem afterComponents?_append (first rest : List Component) :
    afterComponents? first (first ++ rest) = some rest := by
  induction first with
  | nil => cases rest <;> rfl
  | cons c first ih => rw [List.cons_append, afterComponents?, if_pos rfl, ih]

theorem joinNames_map_name (names : List Text) :
    joinNames (names.map .name) = Text.joinWith ['/'] names := by
  have hname : Component.name? ∘ Component.name = some := rfl
  rw [joinNames, List.filterMap_map, hname, List.filterMap_some]

end Path

namespace Place

/-- The name of an entry can stand between slashes. -/
theorem isSegment_of_isName {name : Text} (h : FileName.isName name = true) :
    Path.IsSegment name := by
  simp only [FileName.isName, Bool.and_eq_true, decide_eq_true_eq, Bool.not_eq_true'] at h
  obtain ⟨⟨⟨⟨⟨hnil, hdot⟩, hdots⟩, hslash⟩, _⟩, _⟩ := h
  refine ⟨?_, ?_, ?_, ?_⟩
  · rintro rfl
    exact hnil rfl
  · rintro rfl
    exact hdot rfl
  · rintro rfl
    exact hdots rfl
  · intro hmem
    have hoctet : Octets.slash ∈ FileName.octets name :=
      List.mem_flatMap.2 ⟨'/', hmem, List.mem_singleton_self _⟩
    rw [List.contains_eq_mem, decide_eq_false_iff_not] at hslash
    exact hslash hoctet

/-- The place whose last name has an extension written behind it. -/
def extended (extension : Text) : Place → Place
  | [] => []
  | [name] => [name ++ extension]
  | name :: place => name :: extended extension place

theorem extended_append (extension : Text) (directory : Place) {place : Place}
    (h : place ≠ []) :
    extended extension (directory ++ place) = directory ++ extended extension place := by
  induction directory with
  | nil => rfl
  | cons name directory ih =>
      have hne : directory ++ place ≠ [] := by simp [h]
      obtain ⟨next, rest, hrest⟩ := List.exists_cons_of_ne_nil hne
      rw [List.cons_append, List.cons_append, hrest, extended, ← hrest, ih]
      simp

@[simp] theorem extended_concat (extension : Text) (directory : Place) (name : Text) :
    extended extension (directory ++ [name]) = directory ++ [name ++ extension] := by
  rw [extended_append extension directory (List.cons_ne_nil _ _)]
  rfl

/-- An extension without a slash keeps the names of a place names. -/
theorem isSegment_extended {extension : Text} (hslash : '/' ∉ extension) {place : Place}
    (h : ∀ name ∈ place, Path.IsSegment name) :
    ∀ name ∈ extended extension place, Path.IsSegment name := by
  fun_induction extended extension place with
  | case1 => exact h
  | case2 name =>
      intro n hn
      rw [List.mem_singleton.1 hn]
      exact (h name List.mem_cons_self).append hslash
  | case3 name place _ ih =>
      intro n hn
      rcases List.mem_cons.1 hn with rfl | hn
      · exact h n List.mem_cons_self
      · exact ih (fun m hm => h m (List.mem_cons_of_mem name hm)) n hn

/-- Writing an extension behind a path of names is writing it behind the last name. -/
theorem toPath_append (extension : Text) {place : Place} (h : place ≠ []) :
    (⟨place.toPath.text ++ extension⟩ : Path) = (extended extension place).toPath := by
  obtain ⟨directory, name, rfl⟩ : ∃ directory name, place = directory ++ [name] :=
    ⟨_, _, (List.dropLast_concat_getLast h).symm⟩
  rw [extended_concat]
  cases directory with
  | nil => simp [toPath, Text.joinWith]
  | cons first directory =>
      simp only [toPath]
      rw [Text.joinWith_append _ (List.cons_ne_nil _ _) (List.cons_ne_nil _ _),
        Text.joinWith_append _ (List.cons_ne_nil _ _) (List.cons_ne_nil _ _)]
      simp [Text.joinWith]

/-- A written place has its names as components. -/
theorem components_toPath {place : Place} (h : ∀ name ∈ place, Path.IsSegment name) :
    place.toPath.components = .root :: place.map .name := by
  rw [toPath, Path.components_slash,
    Path.innerComponents_splitOn_joinWith fun s hs => (h s hs).slash_notMem,
    Path.innerComponents_of_isSegment h]

/-- Names that are written behind a place are components behind its components. -/
theorem components_toPath_append (place : Place) {names : List Text}
    (h : ∀ name ∈ names, Path.IsSegment name) :
    (place ++ names).toPath.components = place.toPath.components ++ names.map .name := by
  cases names with
  | nil => simp
  | cons name names =>
      have hslash : ∀ n ∈ name :: names, '/' ∉ n := fun n hn => (h n hn).slash_notMem
      cases place with
      | nil => exact components_toPath h
      | cons first place =>
          rw [toPath, toPath, Text.joinWith_append _ (List.cons_ne_nil _ _) (List.cons_ne_nil _ _),
            List.append_assoc, List.singleton_append, Path.components_slash,
            Path.components_slash, Text.splitOn_append_cons, Path.innerComponents_append,
            Path.innerComponents_splitOn_joinWith hslash, Path.innerComponents_of_isSegment h,
            List.cons_append]

/-- Seen from a place, what is written behind it is its relative path. -/
theorem relativeTo_toPath_append (place : Place) {names : List Text}
    (h : ∀ name ∈ names, Path.IsSegment name) :
    place.toPath.relativeTo (place ++ names).toPath = Text.joinWith ['/'] names := by
  rw [Path.relativeTo, Path.below?, components_toPath_append place h,
    Path.afterComponents?_append, Option.getD_some, Path.joinNames_map_name]

end Place

namespace Document

/-- The directory of a document is the place of the document without its last name. -/
theorem place?_directory {document : Document} {names : Place}
    (h : document.path.place? = some names) :
    document.directory.place? = some names.dropLast := by
  rcases Path.place?_parent? h with ⟨rfl, hnone⟩ | ⟨directory, hsome, hdirectory⟩
  · rw [directory, hnone]
    exact h
  · rw [Document.directory, hsome]
    exact hdirectory

end Document

end DocAudit

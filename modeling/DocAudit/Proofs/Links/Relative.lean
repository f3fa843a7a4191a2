import DocAudit.Proofs.Document.Body
import DocAudit.Proofs.Document.FrontMatter
import DocAudit.Proofs.Links.Existence
import DocAudit.Proofs.Path.Extension

/-!
# Linking from one document to another

A document below the root can be linked to in two ways from any other one:
from the root, by the marker and its stem, and from the directory of the other
document, by going up as often as needed and then down to its stem.  Written
alone in a document, either link walks to the stem, and the rule on links says
nothing but whether there is a markdown file of that stem.

**Results.**
* `walk?_relativeTarget`: the relative link walks to the stem.
* `links_loneDocument`: what the rule says about a lone link.
* `linkable_from_everywhere`: both links, for all pairs of places.
-/

namespace DocAudit

namespace Link

/-- A character that neither ends a bare target nor a path nor opens code. -/
def IsPlain (c : Char) : Prop :=
  Text.isSpace c = false ∧ c ∉ ['(', ')', '<', '>', '\x60', '#', '?']

instance (c : Char) : Decidable (IsPlain c) := inferInstanceAs (Decidable (_ ∧ _))

theorem IsPlain.isBareChar {c : Char} (h : IsPlain c) :
    Markdown.isBareChar c = true ∧ c ≠ Markdown.tick := by
  obtain ⟨hspace, hmem⟩ := h
  simp only [List.mem_cons, List.not_mem_nil, or_false, not_or] at hmem
  obtain ⟨hopen, hclose, hless, hgreater, htick, _, _⟩ := hmem
  refine ⟨?_, htick⟩
  simp [Markdown.isBareChar, hspace, hopen, hclose, hless, hgreater]

theorem IsPlain.not_endsPath {c : Char} (h : IsPlain c) : endsPath c = false := by
  obtain ⟨_, hmem⟩ := h
  simp only [List.mem_cons, List.not_mem_nil, or_false, not_or] at hmem
  obtain ⟨_, _, _, _, _, hfragment, hquery⟩ := hmem
  simp [endsPath, hfragment, hquery]

/-- A target of plain characters is a path as it stands. -/
theorem path_of_isPlain {marker target : Text} (h : ∀ c ∈ target, IsPlain c) :
    (ofTarget marker target).path = target := by
  apply List.takeWhile_eq_self_iff.2
  intro c hc
  rw [(h c hc).not_endsPath]
  rfl

/-- The target that links to a stem from the root. -/
def rootedTarget (stem : Place) : Text := text "/docs/" ++ Text.joinWith ['/'] stem

/-- The target that leaves as many directories as `own` holds and goes down by `rest`. -/
def relativeTarget (own rest : Place) : Text :=
  text "./" ++ (own.flatMap fun _ => text "../") ++ Text.joinWith ['/'] rest

theorem relativeTarget_eq (own : Place) {rest : Place} (hrest : rest ≠ []) :
    relativeTarget own rest
      = Text.joinWith ['/'] (['.'] :: (List.replicate own.length (text "..") ++ rest)) := by
  have hup : (own.flatMap fun _ => text "../") ++ Text.joinWith ['/'] rest
      = Text.joinWith ['/'] (List.replicate own.length (text "..") ++ rest) := by
    induction own with
    | nil => rfl
    | cons name own ih =>
        have hne : List.replicate own.length (text "..") ++ rest ≠ [] := by simp [hrest]
        rw [List.flatMap_cons, List.append_assoc, ih, List.length_cons, List.replicate_succ,
          List.cons_append, Text.joinWith_cons _ _ hne]
        rfl
  have hne : List.replicate own.length (text "..") ++ rest ≠ [] := by simp [hrest]
  rw [relativeTarget, List.append_assoc, hup, Text.joinWith_cons _ _ hne]
  rfl

/-- The relative target walks up to what both places share and down to the stem. -/
theorem walk?_relativeTarget (place own : Place) {rest : Place} (hrest : rest ≠ [])
    (h : ∀ name ∈ rest, Path.IsSegment name) :
    (place ++ own).walk? (Text.splitOn '/' (relativeTarget own rest)) = some (place ++ rest) := by
  have hslash : ∀ s ∈ ['.'] :: (List.replicate own.length (text "..") ++ rest), '/' ∉ s := by
    intro s hs
    rcases List.mem_cons.1 hs with rfl | hs
    · decide
    · rcases List.mem_append.1 hs with hs | hs
      · rw [List.eq_of_mem_replicate hs]
        decide
      · exact (h s hs).slash_notMem
  rw [relativeTarget_eq own hrest, Text.splitOn_joinWith (List.cons_ne_nil _ _) hslash,
    Place.walk?, Place.step?_of_stays (Or.inr rfl), Option.bind_some, Place.walk?_append,
    Place.walk?_replicate_up, Option.bind_some, Place.walk?_of_isSegment h]

theorem drop_rootedTarget (stem : Place) :
    (rootedTarget stem).drop (text "/docs/").length = Text.joinWith ['/'] stem :=
  List.drop_left

/-- The rooted target walks down to the stem. -/
theorem walk?_rootedTarget (root : Place) {stem : Place} (hstem : stem ≠ [])
    (h : ∀ name ∈ stem, Path.IsSegment name) :
    root.walk? (Text.splitOn '/' ((rootedTarget stem).drop (text "/docs/").length))
      = some (root ++ stem) := by
  rw [drop_rootedTarget,
    Text.splitOn_joinWith hstem fun name hname => (h name hname).slash_notMem,
    Place.walk?_of_isSegment h]

theorem rootedTarget_eq {stem : Place} (hstem : stem ≠ []) :
    rootedTarget stem = Text.joinWith ['/'] ([[], text "docs"] ++ stem) := by
  rw [Text.joinWith_append _ (List.cons_ne_nil _ _) hstem]
  rfl

theorem isPlain_joinWith {pieces : List Text} (h : ∀ s ∈ pieces, ∀ c ∈ s, IsPlain c) :
    ∀ c ∈ Text.joinWith ['/'] pieces, IsPlain c := by
  intro c hc
  rcases Text.mem_joinWith hc with hc | ⟨s, hs, hc⟩
  · rw [List.mem_singleton.1 hc]
    decide
  · exact h s hs c hc

theorem isPlain_rootedTarget {stem : Place} (hstem : stem ≠ [])
    (h : ∀ s ∈ stem, ∀ c ∈ s, IsPlain c) : ∀ c ∈ rootedTarget stem, IsPlain c := by
  rw [rootedTarget_eq hstem]
  apply isPlain_joinWith
  intro s hs
  rcases List.mem_append.1 hs with hs | hs
  · have hlead : ∀ s ∈ [[], text "docs"], ∀ c ∈ s, IsPlain c := by decide
    exact hlead s hs
  · exact h s hs

theorem isPlain_relativeTarget (own : Place) {rest : Place} (hrest : rest ≠ [])
    (h : ∀ s ∈ rest, ∀ c ∈ s, IsPlain c) : ∀ c ∈ relativeTarget own rest, IsPlain c := by
  rw [relativeTarget_eq own hrest]
  apply isPlain_joinWith
  intro s hs
  rcases List.mem_cons.1 hs with rfl | hs
  · decide
  · rcases List.mem_append.1 hs with hs | hs
    · rw [List.eq_of_mem_replicate hs]
      decide
    · exact h s hs

theorem lastSegment_rootedTarget {names : Place} {name : Text} (hname : '/' ∉ name) :
    Extension.lastSegment (rootedTarget (names ++ [name])) = name := by
  rw [rootedTarget_eq (by simp), ← List.append_assoc]
  exact Extension.lastSegment_joinWith_concat hname _

theorem lastSegment_relativeTarget (own : Place) {names : Place} {name : Text}
    (hname : '/' ∉ name) :
    Extension.lastSegment (relativeTarget own (names ++ [name])) = name := by
  rw [relativeTarget_eq own (by simp), ← List.append_assoc, ← List.cons_append]
  exact Extension.lastSegment_joinWith_concat hname _

theorem kindOf_rootedTarget (stem : Place) :
    kindOf (text "/docs/") (rootedTarget stem) = .rooted := rfl

theorem kindOf_relativeTarget (own rest : Place) :
    kindOf (text "/docs/") (relativeTarget own rest) = .relative := rfl

theorem destination?_rootedTarget {root directory stem : Place} (hstem : stem ≠ [])
    (hsegment : ∀ s ∈ stem, Path.IsSegment s) (hplain : ∀ s ∈ stem, ∀ c ∈ s, IsPlain c) :
    (ofTarget (text "/docs/") (rootedTarget stem)).destination? (text "/docs/") root directory
      = some (root ++ stem) := by
  have hkind : (ofTarget (text "/docs/") (rootedTarget stem)).kind = .rooted :=
    kindOf_rootedTarget stem
  rw [destination?, hkind, path_of_isPlain (isPlain_rootedTarget hstem hplain)]
  exact walk?_rootedTarget root hstem hsegment

theorem destination?_relativeTarget {root place own rest : Place} (hrest : rest ≠ [])
    (hsegment : ∀ s ∈ rest, Path.IsSegment s) (hplain : ∀ s ∈ rest, ∀ c ∈ s, IsPlain c) :
    (ofTarget (text "/docs/") (relativeTarget own rest)).destination? (text "/docs/") root
      (place ++ own) = some (place ++ rest) := by
  have hkind : (ofTarget (text "/docs/") (relativeTarget own rest)).kind = .relative :=
    kindOf_relativeTarget own rest
  rw [destination?, hkind, path_of_isPlain (isPlain_relativeTarget own hrest hplain)]
  exact walk?_relativeTarget place own hrest hsegment

theorem liesUnder_rootedTarget (stem : Place) :
    (ofTarget (text "/docs/") (rootedTarget stem)).liesUnder (text "pages/") = false := rfl

theorem liesUnder_relativeTarget (own rest : Place) :
    (ofTarget (text "/docs/") (relativeTarget own rest)).liesUnder (text "pages/") = false := rfl

end Link

namespace Check

/-- The document at a path that holds nothing but a link. -/
def loneDocument (root path : Path) (target : Text) : Document :=
  .ofFile root path (Markdown.loneLink (text "x") target)

theorem body_loneDocument (root path : Path) (target : Text) :
    (loneDocument root path target).body = Markdown.loneLink (text "x") target := by
  have hsplit := FrontMatter.split_of_ne_dash (c := '[') (by decide) (by decide)
    (text "x" ++ text "](" ++ target ++ [')'])
  rw [Document.body_eq]
  exact congrArg FrontMatter.body hsplit

section

variable {root path : Path} {rootPlace place goal : Place} {paths : List Path} {catalog : Catalog}
  {target : Text}

/-- The rule on links says nothing about a lone link but whether there is a markdown file of the
place that the link walks to, if the target has no extension and no deprecated opening. -/
theorem links_loneDocument (hroot : root.place? = some rootPlace)
    (hplace : path.place? = some place) (hcatalog : catalog.IsOf paths)
    (hne : target ≠ []) (hplain : ∀ c ∈ target, Link.IsPlain c)
    (hdots : '.' ∉ Extension.lastSegment target)
    (hexternal : Link.kindOf (text "/docs/") target ≠ .external)
    (hdeprecated : (Link.ofTarget (text "/docs/") target).liesUnder (text "pages/") = false)
    (hrooted : Link.kindOf (text "/docs/") target = .rooted →
      ∃ rest, target = text "/docs/" ++ rest ∧ rest.head? ≠ some '/')
    (hgoal : (Link.ofTarget (text "/docs/") target).destination? (text "/docs/") rootPlace
      place.dropLast = some goal)
    (hbelow : goal ≠ []) :
    links .standard root catalog (loneDocument root path target)
      = if goal.HasDocument paths then [] else [.linkNotFound target (text "/docs/")] := by
  have hpath : (Link.ofTarget (text "/docs/") target).path = target := Link.path_of_isPlain hplain
  have hextension : (Link.ofTarget (text "/docs/") target).extension? = none := by
    rw [Link.extension?, hpath]
    exact extension?_of_notMem hdots
  have hchecked : isChecked .standard (.ofTarget (text "/docs/") target) = true := by
    simp [isChecked, hpath, hne, hextension, Config.standard]
  have hresolve : resolve .standard root (loneDocument root path target)
      (.ofTarget (text "/docs/") target) = goal.toPath := by
    refine resolve_eq_toPath hroot hplace ?_ hgoal
    rw [hpath]
    exact hrooted
  have hsegment := isSegment_of_destination? (Path.isSegment_of_mem_place? hroot)
    (fun name hname =>
      Path.isSegment_of_mem_place? hplace name ((List.dropLast_sublist _).mem hname)) hgoal
  have hiff := hasDocument_toPath_iff hcatalog hbelow hsegment
  have hleads : (Config.standard.deprecatedLeads.filter fun lead =>
      (Link.ofTarget (text "/docs/") target).liesUnder lead) = [] := by
    change List.filter _ [text "pages/"] = []
    rw [List.filter_cons_of_neg (by simp [hdeprecated]), List.filter_nil]
  rw [links_of_loneLink (body_loneDocument root path target) (by decide) hne
    (fun c hc => (hplain c hc).isBareChar) hexternal]
  change Check.link .standard root catalog _ (.ofTarget (text "/docs/") target) = _
  rw [Check.link, if_pos hchecked, hextension, hleads, hresolve]
  by_cases h : goal.HasDocument paths
  · rw [if_pos h, if_pos (hiff.2 h)]
    rfl
  · rw [if_neg h, if_neg fun hyes => h (hiff.1 hyes)]
    rfl

/-- The rooted link to a stem is dead exactly when there is no markdown file of the stem. -/
theorem links_rootedTarget (hroot : root.place? = some rootPlace)
    (hplace : path.place? = some place) (hcatalog : catalog.IsOf paths) {stem : Place}
    (hstem : stem ≠ []) (hsegment : ∀ s ∈ stem, Path.IsSegment s)
    (hplain : ∀ s ∈ stem, ∀ c ∈ s, Link.IsPlain c) (hdots : ∀ s ∈ stem.getLast?, '.' ∉ s) :
    links .standard root catalog (loneDocument root path (Link.rootedTarget stem))
      = if (rootPlace ++ stem).HasDocument paths then []
        else [.linkNotFound (Link.rootedTarget stem) (text "/docs/")] := by
  have hkind := Link.kindOf_rootedTarget stem
  refine links_loneDocument hroot hplace hcatalog (List.cons_ne_nil _ _)
    (Link.isPlain_rootedTarget hstem hplain) ?_ (by rw [hkind]; decide)
    (Link.liesUnder_rootedTarget stem) ?_
    (Link.destination?_rootedTarget hstem hsegment hplain) (by simp [hstem])
  · obtain ⟨names, last, rfl⟩ : ∃ names last, stem = names ++ [last] :=
      ⟨_, _, (List.dropLast_concat_getLast hstem).symm⟩
    have hslash : '/' ∉ last := (hsegment last (by simp)).slash_notMem
    rw [Link.lastSegment_rootedTarget hslash]
    exact hdots last (by simp)
  · intro _
    refine ⟨_, rfl, ?_⟩
    obtain ⟨first, more, rfl⟩ := List.exists_cons_of_ne_nil hstem
    have hfirst := hsegment first List.mem_cons_self
    rw [Text.head?_joinWith hfirst.ne_nil]
    exact fun he => hfirst.slash_notMem (List.mem_of_mem_head? he)

/-- The relative link to a stem is dead exactly when there is no markdown file of the stem. -/
theorem links_relativeTarget (hroot : root.place? = some rootPlace) {shared own : Place}
    {name : Text} (hplace : path.place? = some (shared ++ own ++ [name]))
    (hcatalog : catalog.IsOf paths) {rest : Place} (hrest : rest ≠ [])
    (hsegment : ∀ s ∈ rest, Path.IsSegment s) (hplain : ∀ s ∈ rest, ∀ c ∈ s, Link.IsPlain c)
    (hdots : ∀ s ∈ rest.getLast?, '.' ∉ s) :
    links .standard root catalog (loneDocument root path (Link.relativeTarget own rest))
      = if (shared ++ rest).HasDocument paths then []
        else [.linkNotFound (Link.relativeTarget own rest) (text "/docs/")] := by
  have hkind := Link.kindOf_relativeTarget own rest
  have hdirectory : (shared ++ own ++ [name]).dropLast = shared ++ own := List.dropLast_concat
  refine links_loneDocument hroot hplace hcatalog (List.cons_ne_nil _ _)
    (Link.isPlain_relativeTarget own hrest hplain) ?_ (by rw [hkind]; decide)
    (Link.liesUnder_relativeTarget own rest) ?_ ?_ (by simp [hrest])
  · obtain ⟨names, last, rfl⟩ : ∃ names last, rest = names ++ [last] :=
      ⟨_, _, (List.dropLast_concat_getLast hrest).symm⟩
    have hslash : '/' ∉ last := (hsegment last (by simp)).slash_notMem
    rw [Link.lastSegment_relativeTarget own hslash]
    exact hdots last (by simp)
  · intro hrooted
    rw [hkind] at hrooted
    cases hrooted
  · rw [hdirectory]
    exact Link.destination?_relativeTarget hrest hsegment hplain

/-- **Every document can be linked to from everywhere.**  Take the places of two files below the
root: `shared` are directories of both, `own` the other directories of the document, and `rest` the
other names of the stem.  With the standard configuration, a document that is nothing but a link to
the stem, be it rooted or relative, has no violation if there is a markdown file of the stem, and
else the one that the link is dead. -/
theorem linkable_from_everywhere {shared own rest : Place} {name : Text}
    (hroot : root.place? = some rootPlace)
    (hpath : path.place? = some (rootPlace ++ shared ++ own ++ [name]))
    (hcatalog : catalog.IsOf paths) (hrest : rest ≠ [])
    (hsegment : ∀ s ∈ shared ++ rest, Path.IsSegment s)
    (hplain : ∀ s ∈ shared ++ rest, ∀ c ∈ s, Link.IsPlain c)
    (hdots : ∀ s ∈ rest.getLast?, '.' ∉ s) :
    ∀ target ∈ [Link.rootedTarget (shared ++ rest), Link.relativeTarget own rest],
      ((rootPlace ++ shared ++ rest).HasDocument paths →
        links .standard root catalog (loneDocument root path target) = [])
      ∧ (¬ (rootPlace ++ shared ++ rest).HasDocument paths →
        links .standard root catalog (loneDocument root path target)
          = [.linkNotFound target (text "/docs/")]) := by
  have hstem : shared ++ rest ≠ [] := by simp [hrest]
  have hlast : ∀ s ∈ (shared ++ rest).getLast?, '.' ∉ s := by
    rw [List.getLast?_append, List.getLast?_eq_some_getLast hrest, Option.some_or,
      ← List.getLast?_eq_some_getLast hrest]
    exact hdots
  have hrooted := links_rootedTarget hroot hpath hcatalog hstem hsegment hplain hlast
  have hrelative := links_relativeTarget hroot hpath hcatalog hrest
    (fun s hs => hsegment s (List.mem_append_right _ hs))
    (fun s hs => hplain s (List.mem_append_right _ hs)) hdots
  rw [← List.append_assoc] at hrooted
  intro target htarget
  simp only [List.mem_cons, List.not_mem_nil, or_false] at htarget
  rcases htarget with rfl | rfl
  · exact ⟨fun h => by rw [hrooted, if_pos h], fun h => by rw [hrooted, if_neg h]⟩
  · exact ⟨fun h => by rw [hrelative, if_pos h], fun h => by rw [hrelative, if_neg h]⟩

end

/-- A stem whose last name is empty is not linked to: the file of the extension alone is hidden. -/
theorem not_linkable_of_empty_name :
    Place.HasDocument [.ofString "/site/.md"] [text "site", []]
      ∧ links .standard (.ofString "/site") (.ordered [.ofString "/site/.md"])
          (loneDocument (.ofString "/site") (.ofString "/site/a.md") (Link.rootedTarget [[]]))
        = [.linkNotFound (text "/docs/") (text "/docs/")] := by
  refine ⟨by decide +kernel, ?_⟩
  refine (links_of_loneLink (body_loneDocument _ _ _) (by decide) (by decide) (by decide +kernel)
    (by decide) _ _).trans ?_
  decide +kernel

theorem linkable_from_everywhere_sample :
    links .standard (.ofString "/site") (.hashed [.ofString "/site/guides/y[1]/d.mdx"])
        (loneDocument (.ofString "/site") (.ofString "/site/guides/x/a.md")
          (text "/docs/guides/y[1]/d")) = []
      ∧ links .standard (.ofString "/site") (.hashed [.ofString "/site/guides/y[1]/d.mdx"])
        (loneDocument (.ofString "/site") (.ofString "/site/guides/x/a.md")
          (text "./../y[1]/d")) = [] := by
  have hroot : (Path.ofString "/site").place? = some [text "site"] := by decide +kernel
  have hpath : (Path.ofString "/site/guides/x/a.md").place?
      = some ([text "site"] ++ [text "guides"] ++ [text "x"] ++ [text "a.md"]) := by
    decide +kernel
  have hsegment : ∀ s ∈ [text "guides"] ++ [text "y[1]", text "d"], Path.IsSegment s := by
    intro s hs
    apply Place.isSegment_of_isName
    revert s
    decide +kernel
  have hdocument : Place.HasDocument [.ofString "/site/guides/y[1]/d.mdx"]
      ([text "site"] ++ [text "guides"] ++ [text "y[1]", text "d"]) := by
    decide +kernel
  have hcatalog : (Catalog.hashed [.ofString "/site/guides/y[1]/d.mdx"]).IsOf
      [.ofString "/site/guides/y[1]/d.mdx"] := Or.inr rfl
  have key := linkable_from_everywhere hroot hpath hcatalog (List.cons_ne_nil _ _) hsegment
    (by decide +kernel) (by decide)
  exact ⟨(key _ List.mem_cons_self).1 hdocument,
    (key _ (List.mem_cons_of_mem _ List.mem_cons_self)).1 hdocument⟩

end Check
end DocAudit

import DocAudit.Proofs.Links.Reported
import DocAudit.Proofs.Markdown.Extraction
import DocAudit.Proofs.Path.Walk

/-!
# Which links are dead

The rule on links looks a link up by writing paths: a marker is taken off,
slashes are trimmed, paths are joined and normalised, an extension is written
behind the result, and the catalog compares components.  All of that decides
one question: whether the place that the link walks to has a markdown file.

**Results.**
* `resolve_eq_toPath`: a link resolves to the place that it walks to.
* `hasDocument_toPath_iff`: the test for a markdown file is about that place.
* `dead_iff_no_document`: a link is reported as dead, once for every time that
  it stands in the body, exactly when there is no such file.
-/

namespace DocAudit

namespace Catalog

/-- A catalog is built from paths, as an ordered or as a hashed set. -/
def IsOf (catalog : Catalog) (paths : List Path) : Prop :=
  catalog = ordered paths ∨ catalog = hashed paths

theorem IsOf.contains_iff {catalog : Catalog} {paths : List Path} (h : catalog.IsOf paths)
    (p : Path) : catalog.contains p = true ↔ ∃ q ∈ paths, p.components = q.components := by
  rcases h with rfl | rfl
  · exact contains_ordered paths p
  · exact contains_hashed paths p

end Catalog

namespace Place

/-- Among paths there is the markdown file of a stem. -/
def HasDocument (paths : List Path) (stem : Place) : Prop :=
  ∃ path ∈ paths,
    path.place? = some (extended (text ".md") stem)
      ∨ path.place? = some (extended (text ".mdx") stem)

instance (paths : List Path) (stem : Place) : Decidable (HasDocument paths stem) :=
  inferInstanceAs (Decidable (∃ path ∈ paths,
    path.place? = some (extended (text ".md") stem)
      ∨ path.place? = some (extended (text ".mdx") stem)))

end Place

namespace Link

/-- The place that a link walks to: a rooted link from the root, without the marker, and any other
link from a directory. -/
def destination? (marker : Text) (root directory : Place) (link : Link) : Option Place :=
  match link.kind with
  | .rooted => root.walk? (Text.splitOn '/' (link.path.drop marker.length))
  | _ => directory.walk? (Text.splitOn '/' link.path)

/-- A link that is looked up: it leads neither out of the documentation nor to its own page nor to
an image nor to an asset. -/
structure IsLookedUp (config : Config) (link : Link) : Prop where
  not_external : link.kind ≠ .external
  path_ne_nil : link.path ≠ []
  not_image : ∀ extension, link.extension? = some extension → extension ∉ config.imageExtensions
  not_asset : ∀ lead ∈ config.assetLeads, link.liesUnder lead = false

theorem IsLookedUp.isChecked {config : Config} {link : Link} (h : link.IsLookedUp config) :
    Check.isChecked config link = true := by
  have himage : link.extension?.any config.isImageExtension = false := by
    cases he : link.extension? with
    | none => rfl
    | some extension =>
        have hnot := h.not_image extension he
        simpa [Config.isImageExtension] using hnot
  have hasset : (config.assetLeads.any fun lead => link.liesUnder lead) = false := by
    rw [List.any_eq_false]
    intro lead hlead
    simp [h.not_asset lead hlead]
  simp [Check.isChecked, h.path_ne_nil, himage, hasset]

/-- A link of a body is made by its target. -/
theorem eq_ofTarget_of_mem_links {marker body : Text} {link : Link}
    (h : link ∈ Markdown.links marker body) : link = ofTarget marker link.target := by
  obtain ⟨target, -, rfl⟩ := List.mem_map.1 h
  rfl

/-- The path of a rooted link starts with the marker, if the marker has no character that ends a
path. -/
theorem exists_path_of_kind_rooted {marker body : Text} {link : Link}
    (hmarker : ∀ c ∈ marker, endsPath c = false) (h : link ∈ Markdown.links marker body)
    (hkind : link.kind = .rooted) : ∃ rest, link.path = marker ++ rest := by
  rw [eq_ofTarget_of_mem_links h] at hkind ⊢
  simp only [ofTarget, kindOf] at hkind
  split at hkind
  · cases hkind
  · split at hkind
    · rename_i hstart
      obtain ⟨rest, hrest⟩ := Option.isSome_iff_exists.1 hstart.2
      rw [Text.after?_eq_some_iff] at hrest
      refine ⟨rest.takeWhile fun c => !endsPath c, ?_⟩
      simp only [path, ofTarget]
      rw [hrest, List.takeWhile_append_of_pos]
      intro c hc
      rw [hmarker c hc]
      rfl
    · cases hkind

end Link

namespace Check

/-- Slashes at the start of a path lead nowhere. -/
theorem walk?_splitOn_dropWhile (place : Place) (t : Text) :
    place.walk? (Text.splitOn '/' (t.dropWhile (· == '/')))
      = place.walk? (Text.splitOn '/' t) := by
  induction t with
  | nil => rfl
  | cons c t ih =>
      by_cases hc : c = '/'
      · have hsplit : Text.splitOn '/' (c :: t) = [] :: Text.splitOn '/' t := by
          simp [Text.splitOn, hc]
        have hstep : place.step? [] = some place := Place.step?_of_stays (Or.inl rfl) place
        rw [List.dropWhile_cons_of_pos (by simp [hc]), ih, hsplit, Place.walk?, hstep,
          Option.bind_some]
      · rw [List.dropWhile_cons_of_neg (by simp [hc])]

/-- A path is not absolute once the slashes at its start are gone. -/
theorem isAbsolute_dropWhile (t : Text) :
    (⟨t.dropWhile (· == '/')⟩ : Path).isAbsolute = false := by
  have h := List.head?_dropWhile_not (· == '/') t
  unfold Path.isAbsolute
  cases hd : (t.dropWhile (· == '/')).head? with
  | none => rfl
  | some c =>
      rw [hd] at h
      simpa using h

/-- A link resolves to the place that it walks to, if it leads somewhere below the root of the file
system. -/
theorem resolve_eq_toPath {config : Config} {root : Path} {document : Document} {link : Link}
    {rootPlace documentPlace goal : Place} (hroot : root.place? = some rootPlace)
    (hdocument : document.path.place? = some documentPlace)
    (hrest : link.kind = .rooted →
      ∃ rest, link.path = config.rootMarker ++ rest ∧ rest.head? ≠ some '/')
    (hgoal : link.destination? config.rootMarker rootPlace documentPlace.dropLast = some goal) :
    resolve config root document link = goal.toPath := by
  cases hkind : link.kind with
  | rooted =>
      obtain ⟨rest, hpath, hhead⟩ := hrest hkind
      have habsolute : (⟨rest⟩ : Path).isAbsolute = false := by
        simpa [Path.isAbsolute] using hhead
      simp only [Link.destination?, hkind, hpath, List.drop_left] at hgoal
      simp only [resolve, target, hkind, hpath, Text.after?_append, Option.getD_some]
      exact Path.normalize_join hroot habsolute hgoal
  | relative =>
      simp only [Link.destination?, hkind] at hgoal
      simp only [resolve, target, hkind]
      refine Path.normalize_join (Document.place?_directory hdocument)
        (isAbsolute_dropWhile link.path) ?_
      rw [walk?_splitOn_dropWhile]
      exact hgoal
  | external =>
      simp only [Link.destination?, hkind] at hgoal
      simp only [resolve, target, hkind]
      refine Path.normalize_join (Document.place?_directory hdocument)
        (isAbsolute_dropWhile link.path) ?_
      rw [walk?_splitOn_dropWhile]
      exact hgoal

/-- The names of the place that a link walks to can stand between slashes. -/
theorem isSegment_of_destination? {marker : Text} {link : Link}
    {rootPlace directory goal : Place}
    (hroot : ∀ name ∈ rootPlace, Path.IsSegment name)
    (hdirectory : ∀ name ∈ directory, Path.IsSegment name)
    (hgoal : link.destination? marker rootPlace directory = some goal) :
    ∀ name ∈ goal, Path.IsSegment name := by
  unfold Link.destination? at hgoal
  split at hgoal
  · exact Place.isSegment_of_walk? hroot (fun _ hs => Text.notMem_of_mem_splitOn hs) hgoal
  · exact Place.isSegment_of_walk? hdirectory (fun _ hs => Text.notMem_of_mem_splitOn hs) hgoal

/-- There is a markdown file to the path of a place exactly when the catalog holds the place with
an extension of markdown. -/
theorem hasDocument_toPath_iff {catalog : Catalog} {paths : List Path}
    (hcatalog : catalog.IsOf paths) {stem : Place} (hstem : stem ≠ [])
    (hsegment : ∀ name ∈ stem, Path.IsSegment name) :
    hasDocument catalog stem.toPath = true ↔ stem.HasDocument paths := by
  have hcontains : ∀ extension : Text, '/' ∉ extension →
      (catalog.contains ⟨stem.toPath.text ++ extension⟩ = true
        ↔ ∃ path ∈ paths, path.place? = some (stem.extended extension)) := by
    intro extension hslash
    rw [Place.toPath_append extension hstem, hcatalog.contains_iff,
      Place.components_toPath (Place.isSegment_extended hslash hsegment)]
    simp only [Path.place?_eq_some_iff, eq_comm]
  have hmd := hcontains (text ".md") (by decide)
  have hmdx := hcontains (text ".mdx") (by decide)
  simp only [hasDocument, markdownExtensions, List.any_cons, List.any_nil, Bool.or_false,
    Bool.or_eq_true, hmd, hmdx, Place.HasDocument, and_or_left, exists_or]

/-- How often violations report a link as dead. -/
def timesDead (config : Config) (link : Link) (violations : List Violation) : Nat :=
  violations.count (.linkNotFound link.target config.rootMarker)

theorem timesDead_append (config : Config) (link : Link) (first second : List Violation) :
    timesDead config link (first ++ second)
      = timesDead config link first + timesDead config link second :=
  List.count_append

theorem timesDead_eq_zero {config : Config} {link : Link} {violations : List Violation}
    (h : ∀ v ∈ violations, v ≠ .linkNotFound link.target config.rootMarker) :
    timesDead config link violations = 0 := by
  rw [timesDead, List.count_eq_zero]
  exact fun hmem => h _ hmem rfl

/-- A link that is looked up is reported as dead once, or not at all if there is a markdown file to
the path that it resolves to. -/
theorem timesDead_link {config : Config} {link : Link} (hlink : link.IsLookedUp config)
    (root : Path) (catalog : Catalog) (document : Document) :
    timesDead config link (Check.link config root catalog document link)
      = if hasDocument catalog (resolve config root document link) then 0 else 1 := by
  have hextension : timesDead config link
      (link.extension?.toList.map (Violation.linkExtension link.target)) = 0 := by
    apply timesDead_eq_zero
    intro v hv he
    obtain ⟨_, _, rfl⟩ := List.mem_map.1 hv
    cases he
  have hdeprecated : timesDead config link
      ((config.deprecatedLeads.filter fun lead => link.liesUnder lead).map
        (Violation.deprecatedLead link.target)) = 0 := by
    apply timesDead_eq_zero
    intro v hv he
    obtain ⟨_, _, rfl⟩ := List.mem_map.1 hv
    cases he
  rw [Check.link, if_pos hlink.isChecked, timesDead_append, timesDead_append, hextension,
    hdeprecated]
  split <;> simp [timesDead]

theorem count_flatMap_eq {α β : Type} [DecidableEq α] [DecidableEq β] {f : α → List β} {a : α}
    {b : β} {l : List α} (h : ∀ c ∈ l, c ≠ a → (f c).count b = 0) :
    (l.flatMap f).count b = l.count a * (f a).count b := by
  induction l with
  | nil => simp
  | cons c l ih =>
      have hl := ih fun d hd => h d (List.mem_cons_of_mem c hd)
      rw [List.flatMap_cons, List.count_append, hl, List.count_cons]
      by_cases hc : c = a
      · rw [hc, if_pos (beq_self_eq_true a), Nat.add_mul, Nat.one_mul, Nat.add_comm]
      · have hne : ¬ (c == a) = true := fun e => hc (beq_iff_eq.1 e)
        rw [h c List.mem_cons_self hc, if_neg hne, Nat.zero_add, Nat.add_zero]

/-- What one link contributes to the reports, the rule contributes as often as the body holds the
link. -/
theorem timesDead_links {config : Config} {document : Document} {link : Link}
    (hmem : link ∈ Markdown.links config.rootMarker document.body)
    (hlink : link.IsLookedUp config) (root : Path) (catalog : Catalog) :
    timesDead config link (links config root catalog document)
      = (Markdown.links config.rootMarker document.body).count link
        * timesDead config link (Check.link config root catalog document link) := by
  let inner := (Markdown.links config.rootMarker document.body).filter fun l => l.kind ≠ .external
  have hothers : ∀ other ∈ inner, other ≠ link →
      timesDead config link (Check.link config root catalog document other) = 0 := by
    intro other hother hne
    apply timesDead_eq_zero
    intro v hv he
    rw [he] at hv
    have htarget : other.target = link.target := (Option.some.inj (link?_of_mem_link hv)).symm
    apply hne
    rw [Link.eq_ofTarget_of_mem_links (List.mem_filter.1 hother).1, htarget,
      ← Link.eq_ofTarget_of_mem_links hmem]
  have hcount : inner.count link = (Markdown.links config.rootMarker document.body).count link :=
    List.count_filter (decide_eq_true hlink.not_external)
  rw [← hcount]
  exact count_flatMap_eq hothers

/-- If the body of a document is one link, its violations are those of the link. -/
theorem links_of_loneLink {document : Document} {label goal : Text}
    (hbody : document.body = Markdown.loneLink label goal)
    (hlabel : ∀ c ∈ label, c ≠ Markdown.tick ∧ c ≠ ']') (hne : goal ≠ [])
    (hgoal : ∀ c ∈ goal, Markdown.isBareChar c = true ∧ c ≠ Markdown.tick)
    {config : Config} (hkind : Link.kindOf config.rootMarker goal ≠ .external)
    (root : Path) (catalog : Catalog) :
    links config root catalog document
      = link config root catalog document (.ofTarget config.rootMarker goal) := by
  have hkept : [Link.ofTarget config.rootMarker goal].filter (fun link => link.kind ≠ .external)
      = [.ofTarget config.rootMarker goal] := by
    rw [List.filter_eq_self]
    intro link hlink
    rw [List.mem_singleton.1 hlink]
    exact decide_eq_true hkind
  rw [links, hbody, Markdown.links_loneLink hlabel hne hgoal, hkept, List.flatMap_singleton]

/-- **Which links are dead.**  A link that is looked up, and whose walk ends below the root of the
file system, is reported as dead exactly when no path shows the markdown file of the place that it
walks to: once for the link, and so once for every time that the link stands in the body. -/
theorem dead_iff_no_document {paths : List Path} {catalog : Catalog}
    (hcatalog : catalog.IsOf paths) {config : Config}
    (hmarker : ∀ c ∈ config.rootMarker, Link.endsPath c = false)
    {root : Path} {rootPlace : Place} (hroot : root.place? = some rootPlace)
    {document : Document} {documentPlace : Place}
    (hdocument : document.path.place? = some documentPlace)
    {link : Link} (hmem : link ∈ Markdown.links config.rootMarker document.body)
    (hlink : link.IsLookedUp config)
    (hrest : link.kind = .rooted →
      (link.path.drop config.rootMarker.length).head? ≠ some '/')
    {goal : Place}
    (hgoal : link.destination? config.rootMarker rootPlace documentPlace.dropLast = some goal)
    (hbelow : goal ≠ []) :
    (goal.HasDocument paths →
      timesDead config link (Check.link config root catalog document link) = 0
        ∧ timesDead config link (links config root catalog document) = 0)
    ∧ (¬ goal.HasDocument paths →
      timesDead config link (Check.link config root catalog document link) = 1
        ∧ timesDead config link (links config root catalog document)
          = (Markdown.links config.rootMarker document.body).count link) := by
  have hpath : link.kind = .rooted →
      ∃ rest, link.path = config.rootMarker ++ rest ∧ rest.head? ≠ some '/' := by
    intro hkind
    obtain ⟨rest, hrest'⟩ := Link.exists_path_of_kind_rooted hmarker hmem hkind
    refine ⟨rest, hrest', ?_⟩
    have hhead := hrest hkind
    rw [hrest', List.drop_left] at hhead
    exact hhead
  have hresolve := resolve_eq_toPath hroot hdocument hpath hgoal
  have hsegment := isSegment_of_destination? (Path.isSegment_of_mem_place? hroot)
    (fun name hname =>
      Path.isSegment_of_mem_place? hdocument name ((List.dropLast_sublist _).mem hname)) hgoal
  have hiff := hasDocument_toPath_iff hcatalog hbelow hsegment
  have hone := timesDead_link hlink root catalog document
  have hall := timesDead_links hmem hlink root catalog
  rw [hresolve] at hone
  constructor
  · intro h
    rw [if_pos (hiff.2 h)] at hone
    rw [hone, Nat.mul_zero] at hall
    exact ⟨hone, hall⟩
  · intro h
    rw [if_neg fun hyes => h (hiff.1 hyes)] at hone
    rw [hone, Nat.mul_one] at hall
    exact ⟨hone, hall⟩

/-- A link that goes up and down again, with slashes and steps that do not count. -/
def sampleLink : Link := .ofTarget (text "/docs/") (text "../api//./b/#use")

/-- A document that holds the link twice. -/
def sampleDocument : Document :=
  ⟨.ofString "/site/docs/guides/a.md", text "guides/a.md",
    text "[x](../api//./b/#use) ![y](../api//./b/#use)"⟩

/-- The body of the document. -/
def sampleBody : List Markdown.Piece :=
  let destination := .bare (sampleLink.target.map .char)
  [.link (text "x") destination none, .plain (text " !"), .link (text "y") destination none]

/-- Files, none of which the link leads to. -/
def samplePaths : List Path :=
  [.ofString "/site/docs/guides/a.md", .ofString "/site/docs/api/b/c.md"]

theorem dead_iff_no_document_sample :
    timesDead .standard sampleLink
        (Check.link .standard (.ofString "/site/docs") (.ordered samplePaths) sampleDocument
          sampleLink) = 1
      ∧ timesDead .standard sampleLink
          (links .standard (.ofString "/site/docs") (.ordered samplePaths) sampleDocument) = 2 := by
  have hbody : sampleDocument.body = Markdown.Piece.writeAll sampleBody := by decide +kernel
  have hlinks : Markdown.links Config.standard.rootMarker sampleDocument.body
      = [sampleLink, sampleLink] := by
    rw [hbody, Markdown.links, Markdown.Piece.targets_writeAll (by decide +kernel)]
    decide +kernel
  have hmem : sampleLink ∈ Markdown.links Config.standard.rootMarker sampleDocument.body := by
    rw [hlinks]
    exact List.mem_cons_self
  have hlink : sampleLink.IsLookedUp .standard := by
    have hnone : sampleLink.extension? = none := by decide +kernel
    refine ⟨by decide +kernel, by decide +kernel, ?_, by decide +kernel⟩
    intro extension hextension
    rw [hnone] at hextension
    cases hextension
  have hroot : (Path.ofString "/site/docs").place? = some [text "site", text "docs"] := by
    decide +kernel
  have hdocument : sampleDocument.path.place?
      = some [text "site", text "docs", text "guides", text "a.md"] := by
    decide +kernel
  have hgoal : sampleLink.destination? Config.standard.rootMarker [text "site", text "docs"]
      [text "site", text "docs", text "guides"]
        = some [text "site", text "docs", text "api", text "b"] := by
    decide +kernel
  have hmissing : ¬ Place.HasDocument samplePaths
      [text "site", text "docs", text "api", text "b"] := by
    decide +kernel
  have key := (dead_iff_no_document (Or.inl rfl) (by decide +kernel) hroot hdocument hmem hlink
    (by decide +kernel) hgoal (List.cons_ne_nil _ _)).2 hmissing
  rw [hlinks] at key
  exact key

end Check

end DocAudit

import Mathlib.Control.Monad.Basic
import DocAudit.Proofs.Discovery.Walk

/-!
# Hidden entries

A walk looks where an entry leads to before it looks at the name.  So a hidden
entry does not matter, be it a file, a directory with all that lies beneath it
or a link, as long as the walk gets past it.  A hidden link that leads nowhere,
or to a directory that the walk is in, ends the walk.

Two runs are compared, with the entry and without it.  The entries that the
first one comes to are its `encounters`.  Following what it follows leads past
the entry, so that both runs come to the same outcomes.

**Results.**
* `outcome_erase`: an entry that is not led through another one has the same
  outcome without it.
* `walk_erase`: a walk past a hidden entry is the walk without it.
* `discover_erase_hidden`: hidden entries do not matter, unless they stop the
  walk.
-/

namespace DocAudit
namespace Discovery

/-- An entry that a walk comes to. -/
structure Encounter (ν : Type := Text) where
  /-- The directory that the walk is in. -/
  here : Visit ν
  /-- The name of the entry there. -/
  name : ν
deriving DecidableEq, Repr

variable {ν : Type} [DecidableEq ν] [FileName ν]

namespace Encounter

/-- The place of the entry. -/
def place (e : Encounter ν) : Place ν := e.here.place ++ [e.name]

/-- The places that are passed when it is looked where the entry leads to. -/
def trace (tree : FileTree ν) (e : Encounter ν) : List (Place ν) :=
  tree.trace e.here.links e.here.place [.down e.name]

/-- Whether the entry ends the walk: it leads nowhere or to a directory that cannot be listed, or it
is a link to a directory that the walk is in. -/
def stops (tree : FileTree ν) (e : Encounter ν) : Bool :=
  match outcome tree e.here e.name with
  | .stops _ => true
  | _ => false

end Encounter

/-- What a walk comes to among the entries of some names, in this order, and beneath them.  It does
not go on behind an error. -/
def encountersAmong (tree : FileTree ν) (enter : Visit ν → Except WalkError (List (Place ν)))
    (within : Visit ν → List (Encounter ν)) (here : Visit ν) : List ν → List (Encounter ν)
  | [] => []
  | name :: names =>
      ⟨here, name⟩ ::
        ((match outcome tree here name with
          | .entered visit => within visit
          | _ => [])
        ++ if (visitEntry tree enter here name).isOk then
            encountersAmong tree enter within here names
          else [])

/-- The entries that a walk comes to before it ends. -/
def encounters (tree : FileTree ν) : (fuel : Nat) → Visit ν → List (Encounter ν)
  | 0, _ => []
  | fuel + 1, here =>
      encountersAmong tree (walk tree fuel) (encounters tree fuel) here (tree.names here.place)

/-- The entries that a discovery comes to. -/
def encountered (tree : FileTree ν) (root : RootName) : List (Encounter ν) :=
  match tree.canonical root with
  | .error _ => []
  | .ok place => if tree.isDirectory place then encounters tree (fuel tree) (.start place) else []

section

variable {tree other : FileTree ν} {here visit : Visit ν} {name hidden : ν}
  {directory entry : Place ν} {cause : WalkError}

theorem stops_eq_true_iff {e : Encounter ν} :
    e.stops tree = true ↔ ∃ cause, outcome tree e.here e.name = .stops cause := by
  unfold Encounter.stops
  split <;> simp_all

/-- A hidden entry that ends the walk is a link. -/
theorem isLink_of_outcome_stops (hhidden : isHidden name = true)
    (hplace : tree.isDirectory here.place = true) (hname : name ∈ tree.names here.place)
    (h : outcome tree here name = .stops cause) : tree.isLink (here.place ++ [name]) = true := by
  have hentry := (FileTree.mem_names tree here.place name).1 hname
  cases hlink : tree.isLink (here.place ++ [name]) with
  | true => rfl
  | false =>
      have hlook : here.look tree name = .ok (here.place ++ [name], here.links) := by
        simp only [Visit.look, hlink, Bool.false_and, Bool.false_eq_true, if_false]
        exact FileTree.follow_down_of_not_isLink hplace hentry hlink here.links
      simp only [outcome, hlook, hlink, hhidden, Bool.false_and, Bool.not_false, Bool.and_true,
        Bool.false_eq_true, if_false, if_true] at h
      split at h <;> cases h

theorem outcome_congr
    (h : ∀ q ∈ tree.trace here.links here.place [.down name], tree.get? q = other.get? q)
    (hentry : tree.get? (here.place ++ [name]) = other.get? (here.place ++ [name])) :
    outcome tree here name = outcome other here name := by
  unfold outcome Visit.look
  rw [← FileTree.follow_congr h, ← FileTree.isLink_congr hentry]
  split
  · rfl
  · rename_i place links hlook
    split at hlook
    · cases hlook
    · rw [h place (FileTree.mem_trace_of_follow hlook)]

/-- Whatever is not the entry leads past it, unless a link leads over it. -/
theorem trace_avoids (hplace : tree.isDirectory here.place = true)
    (hname : name ∈ tree.names here.place) (hhere : ¬ entry <+: here.place)
    (hne : here.place ++ [name] ≠ entry)
    (hlink : tree.isLink (here.place ++ [name]) = true →
      ∀ q ∈ tree.trace here.links here.place [.down name], ¬ entry <+: q) :
    ∀ q ∈ tree.trace here.links here.place [.down name], ¬ entry <+: q := by
  cases hkind : tree.isLink (here.place ++ [name]) with
  | true => exact hlink hkind
  | false =>
      have hentry := (FileTree.mem_names tree here.place name).1 hname
      rw [FileTree.trace_down_of_not_isLink hplace hentry hkind]
      intro q hq hwithin
      simp only [List.mem_cons, List.not_mem_nil, or_false] at hq
      rcases hq with rfl | rfl
      · exact hhere hwithin
      · rcases List.prefix_concat_iff.1 hwithin with h | h
        · exact hne h.symm
        · exact hhere h

theorem get?_erase_of_outside (hentry : entry ≠ []) {q : Place ν} (h : ¬ entry <+: q) :
    tree.get? q = (tree.erase entry).get? q := by
  rw [FileTree.get?_erase tree hentry, if_neg h]

theorem outcome_erase (hentry : entry ≠ []) (hhere : ¬ entry <+: here.place)
    (hne : here.place ++ [name] ≠ entry)
    (h : ∀ q ∈ tree.trace here.links here.place [.down name], ¬ entry <+: q) :
    outcome (tree.erase entry) here name = outcome tree here name := by
  refine (outcome_congr (fun q hq => get?_erase_of_outside hentry (h q hq))
    (get?_erase_of_outside hentry ?_)).symm
  intro hwithin
  rcases List.prefix_concat_iff.1 hwithin with h | h
  · exact hne h.symm
  · exact hhere h

/-- What a walk comes to does not hang on an entry: no other link leads over the entry, and the
entry itself does not end the walk. -/
structure Spares (tree : FileTree ν) (entry : Place ν) (e : Encounter ν) : Prop where
  other : e.place ≠ entry → tree.isLink e.place = true → ∀ q ∈ e.trace tree, ¬ entry <+: q
  itself : e.place = entry → tree.isLink entry = true → e.stops tree = false

theorem outcome_of_itself (hhidden : isHidden hidden = true)
    (hplace : tree.isDirectory here.place = true) (hname : name ∈ tree.names here.place)
    (hsame : here.place ++ [name] = directory ++ [hidden])
    (h : Spares tree (directory ++ [hidden]) ⟨here, name⟩) :
    outcome tree here name = .skipped := by
  have hlast : name = hidden := by
    have := (List.append_inj' hsame rfl).2
    simpa using this
  rw [← hlast] at hhidden
  rcases outcome_of_isHidden hhidden with ho | ⟨cause, ho⟩
  · exact ho
  · have hlink := isLink_of_outcome_stops hhidden hplace hname ho
    rw [hsame] at hlink
    have hstops : Encounter.stops tree ⟨here, name⟩ = true := stops_eq_true_iff.2 ⟨cause, ho⟩
    rw [h.itself hsame hlink] at hstops
    cases hstops

/-- What the entries of a directory contribute does not hang on a hidden entry, if that holds for
what is entered. -/
theorem collect_erase (hhidden : isHidden hidden = true) {fuel : Nat}
    (henter : ∀ {visit : Visit ν}, tree.isDirectory visit.place = true →
      ¬ directory ++ [hidden] <+: visit.place →
      (∀ e ∈ encounters tree fuel visit, Spares tree (directory ++ [hidden]) e) →
      walk (tree.erase (directory ++ [hidden])) fuel visit = walk tree fuel visit)
    (hplace : tree.isDirectory here.place = true) (hhere : ¬ directory ++ [hidden] <+: here.place)
    {names : List ν} (hnames : ∀ name ∈ names, name ∈ tree.names here.place)
    (h : ∀ e ∈ encountersAmong tree (walk tree fuel) (encounters tree fuel) here names,
      Spares tree (directory ++ [hidden]) e) :
    collect (visitEntry (tree.erase (directory ++ [hidden]))
        (walk (tree.erase (directory ++ [hidden])) fuel) here)
        (names.filter fun name => here.place ++ [name] ≠ directory ++ [hidden])
      = collect (visitEntry tree (walk tree fuel) here) names := by
  induction names with
  | nil => rfl
  | cons name names ih =>
      have hname := hnames name List.mem_cons_self
      have hothers := fun n hn => hnames n (List.mem_cons_of_mem name hn)
      rw [encountersAmong, List.forall_mem_cons] at h
      obtain ⟨hspares, h⟩ := h
      -- The walk comes to the other names only behind an entry that gives no error.
      have hrest : (visitEntry tree (walk tree fuel) here name).isOk = true →
          ∀ e ∈ encountersAmong tree (walk tree fuel) (encounters tree fuel) here names,
            Spares tree (directory ++ [hidden]) e := by
        intro hok e he
        rw [if_pos hok] at h
        exact h e (List.mem_append_right _ he)
      by_cases hsame : here.place ++ [name] = directory ++ [hidden]
      · have hskipped := outcome_of_itself hhidden hplace hname hsame hspares
        have hnothing : visitEntry tree (walk tree fuel) here name = .ok [] := by
          rw [visitEntry, hskipped]
        have hok : (visitEntry tree (walk tree fuel) here name).isOk = true := by
          rw [hnothing]
          rfl
        rw [List.filter_cons_of_neg (by simpa using hsame), collect_cons_of_ok_nil hnothing]
        exact ih hothers (hrest hok)
      · have havoids := trace_avoids hplace hname hhere hsame (hspares.other hsame)
        have houtcome := outcome_erase (by simp) hhere hsame havoids
        rw [List.filter_cons, if_pos (decide_eq_true hsame)]
        refine collect_cons_congr ?_ fun hok => ih hothers (hrest hok)
        rw [visitEntry, visitEntry, houtcome]
        cases ho : outcome tree here name with
        | stops cause => rfl
        | skipped => rfl
        | listed file => rfl
        | entered visit =>
            have henters := enters_of_outcome ho
            have hvisit := havoids _ (FileTree.mem_trace_of_follow henters.follow_eq)
            rw [ho] at h
            exact henter henters.isDirectory hvisit fun e he => h e (List.mem_append_left _ he)

/-- A walk that spares a hidden entry is the walk without the entry. -/
theorem walk_erase (hhidden : isHidden hidden = true) {fuel : Nat}
    (hplace : tree.isDirectory here.place = true) (hhere : ¬ directory ++ [hidden] <+: here.place)
    (h : ∀ e ∈ encounters tree fuel here, Spares tree (directory ++ [hidden]) e) :
    walk (tree.erase (directory ++ [hidden])) fuel here = walk tree fuel here := by
  induction fuel generalizing here with
  | zero => rfl
  | succ fuel ih =>
      rw [walk_succ, walk_succ, FileTree.names_erase tree (by simp) hhere]
      exact collect_erase hhidden ih hplace hhere (fun _ hn => hn) h

/-- An entry that ends the walk makes the collection end with an error, if that holds for what is
entered. -/
theorem collect_eq_error_of_stops {fuel : Nat} {e : Encounter ν} (hstops : e.stops tree = true)
    (henter : ∀ {visit : Visit ν}, e ∈ encounters tree fuel visit →
      ∃ cause, walk tree fuel visit = .error cause)
    {names : List ν}
    (he : e ∈ encountersAmong tree (walk tree fuel) (encounters tree fuel) here names) :
    ∃ cause, collect (visitEntry tree (walk tree fuel) here) names = .error cause := by
  induction names with
  | nil => cases he
  | cons name names ih =>
      rw [encountersAmong, List.mem_cons, List.mem_append] at he
      rcases he with rfl | he | he
      · obtain ⟨cause, ho⟩ := stops_eq_true_iff.1 hstops
        have hentry : visitEntry tree (walk tree fuel) here name = .error cause := by
          rw [visitEntry, ho]
        exact ⟨cause, collect_cons_of_error hentry⟩
      · split at he
        · rename_i visit ho
          obtain ⟨cause, hwalk⟩ := henter he
          have hentry : visitEntry tree (walk tree fuel) here name = .error cause := by
            rw [visitEntry, ho]
            exact hwalk
          exact ⟨cause, collect_cons_of_error hentry⟩
        · cases he
      · split at he
        · obtain ⟨cause, hrest⟩ := ih he
          exact exists_error_of_collect_cons hrest
        · cases he

theorem walk_eq_error_of_stops {fuel : Nat} {e : Encounter ν} (hstops : e.stops tree = true)
    (he : e ∈ encounters tree fuel here) : ∃ cause, walk tree fuel here = .error cause := by
  induction fuel generalizing here with
  | zero => cases he
  | succ fuel ih =>
      rw [encounters] at he
      rw [walk_succ]
      exact collect_eq_error_of_stops hstops ih he

theorem locate_erase (hentry : entry ≠ []) {route : Route ν}
    (h : ∀ q ∈ tree.routeTrace route, ¬ entry <+: q) :
    (tree.erase entry).locate route = tree.locate route := by
  have hfollow := FileTree.follow_congr fun q hq => get?_erase_of_outside hentry (h q hq)
  simp only [FileTree.locate]
  rw [hfollow]
  rfl

/-- A root whose route passes an entry by leads to the same place without the entry. -/
theorem canonical_erase (hentry : entry ≠ []) {root : RootName}
    (h : ∀ route, FileName.route? root = some route → ∀ q ∈ tree.routeTrace route, ¬ entry <+: q) :
    (tree.erase entry).canonical root = tree.canonical root := by
  unfold FileTree.canonical
  split
  · rfl
  · rename_i route hroute
    rw [locate_erase hentry (h route hroute)]

theorem not_prefix_of_canonical {root : RootName} {place : Place ν}
    (h : ∀ route, FileName.route? root = some route → ∀ q ∈ tree.routeTrace route, ¬ entry <+: q)
    (hplace : tree.canonical root = .ok place) : ¬ entry <+: place := by
  unfold FileTree.canonical at hplace
  split at hplace
  · cases hplace
  · rename_i route hroute
    split at hplace
    · cases hplace
    · rename_i goal hgoal
      split at hplace
      · cases hplace
      · cases hplace
        obtain ⟨r, hfollow, rfl⟩ := FileTree.exists_follow_of_locate hgoal
        exact h route hroute r.1 (FileTree.mem_trace_of_follow hfollow)

omit [FileName ν] in
theorem fuel_erase_le (tree : FileTree ν) (entry : Place ν) :
    fuel (tree.erase entry) ≤ fuel tree := by
  have hdepth := FileTree.depth_erase_le tree entry
  simp only [fuel]
  exact Nat.mul_le_mul_left _ (Nat.succ_le_succ hdepth)

/-- The files beneath a root are the same ones without a hidden entry that the walk gets past. -/
theorem beneath_erase {root : Place ν} (hhidden : isHidden hidden = true)
    (hroot : tree.isDirectory root = true) (havoids : ¬ directory ++ [hidden] <+: root)
    (h : ∀ e ∈ encounters tree (fuel tree) (.start root), Spares tree (directory ++ [hidden]) e) :
    beneath (tree.erase (directory ++ [hidden])) root = beneath tree root := by
  have hsame : (tree.erase (directory ++ [hidden])).isDirectory root = true := by
    rw [← FileTree.isDirectory_congr (get?_erase_of_outside (by simp) havoids), hroot]
  rw [beneath_eq_walk hsame (fuel_erase_le tree _), beneath_eq_walk hroot (Nat.le_refl _)]
  exact walk_erase hhidden hroot havoids h

theorem exists_of_mem_encountered {root : RootName} {e : Encounter ν}
    (he : e ∈ encountered tree root) :
    ∃ place, tree.canonical root = .ok place ∧ tree.isDirectory place = true
      ∧ e ∈ encounters tree (fuel tree) (.start place) := by
  unfold encountered at he
  split at he
  · cases he
  · rename_i place hplace
    split at he
    · rename_i hdirectory
      exact ⟨place, hplace, hdirectory, he⟩
    · cases he

theorem encountered_of_canonical {root : RootName} {place : Place ν}
    (hroot : tree.canonical root = .ok place) (hdirectory : tree.isDirectory place = true) :
    encountered tree root = encounters tree (fuel tree) (.start place) := by
  rw [encountered, hroot]
  exact if_pos hdirectory

theorem discover_congr {root : RootName} (hcanonical : tree.canonical root = other.canonical root)
    (h : ∀ place, other.canonical root = .ok place → tree.get? place = other.get? place
      ∧ (other.isDirectory place = true → beneath tree place = beneath other place)) :
    discover tree root = discover other root := by
  rw [discover, discover, hcanonical]
  cases hroot : other.canonical root with
  | error cause => rfl
  | ok place =>
      obtain ⟨hentry, hbeneath⟩ := h place hroot
      dsimp only
      rw [hentry]
      split
      · rename_i hdirectory
        rw [hbeneath (FileTree.isDirectory_eq_true_iff.2 hdirectory)]
      · rfl
      · rfl

end

/-- **Hidden entries do not matter.**  Take a hidden entry that neither the root nor any link which
the walk comes to, itself apart, leads over.  Then discovery gives the same result or the same
error without the entry and all that lies beneath it, unless the entry is a link that ends the walk.
An entry that ends the walk makes discovery fail, hidden or not. -/
theorem discover_erase_hidden {ν : Type} [DecidableEq ν] [FileName ν] {tree : FileTree ν}
    {root : RootName} {directory : Place ν} {hidden : ν} (hhidden : isHidden hidden = true)
    (hroot : ∀ route, FileName.route? root = some route →
      ∀ q ∈ tree.routeTrace route, ¬ directory ++ [hidden] <+: q)
    (hlinks : ∀ e ∈ encountered tree root, e.place ≠ directory ++ [hidden] →
      tree.isLink e.place = true → ∀ q ∈ e.trace tree, ¬ directory ++ [hidden] <+: q) :
    ((tree.isLink (directory ++ [hidden]) = true →
        ∀ e ∈ encountered tree root, e.place = directory ++ [hidden] → e.stops tree = false) →
      discover (tree.erase (directory ++ [hidden])) root = discover tree root)
    ∧ ∀ e ∈ encountered tree root, e.stops tree = true →
      ∃ cause, discover tree root = .error (.walk cause) := by
  have hentry : directory ++ [hidden] ≠ [] := by simp
  constructor
  · intro hitself
    refine discover_congr (canonical_erase hentry hroot) ?_
    intro place hplace
    have havoids := not_prefix_of_canonical hroot hplace
    refine ⟨(get?_erase_of_outside hentry havoids).symm, ?_⟩
    intro hdirectory
    rw [encountered_of_canonical hplace hdirectory] at hlinks hitself
    refine beneath_erase hhidden hdirectory havoids ?_
    intro e he
    exact ⟨hlinks e he, fun hsame hlink => hitself hlink e he hsame⟩
  · intro e he hstops
    obtain ⟨place, hplace, hdirectory, he⟩ := exists_of_mem_encountered he
    obtain ⟨cause, hwalk⟩ := walk_eq_error_of_stops hstops he
    refine ⟨cause, ?_⟩
    rw [← beneath_eq_walk hdirectory (Nat.le_refl _)] at hwalk
    simp only [discover, hplace, FileTree.isDirectory_eq_true_iff.1 hdirectory, hwalk]

/-- A tree with a hidden file, a hidden directory and a hidden link in a directory that a link leads
to. -/
def sharedTree : FileTree where
  entries :=
    [([text "docs"], .directory), ([text "docs", text "a.md"], .file (some [])),
      ([text "docs", text ".keep"], .file (some [])),
      ([text "docs", text "more"], .link (Path.route (.ofString "../shared"))),
      ([text "shared"], .directory), ([text "shared", text "b.md"], .file (some [])),
      ([text "shared", text ".cache"], .directory),
      ([text "shared", text ".cache", text "c.md"], .file (some [])),
      ([text "shared", text ".latest"], .link (Path.route (.ofString "b.md")))]
  workingDirectory := []

/-- A tree with a hidden link that leads nowhere. -/
def danglingTree : FileTree where
  entries :=
    [([text "docs"], .directory), ([text "docs", text "a.md"], .file (some [])),
      ([text "docs", text ".b"], .link (Path.route (.ofString "gone")))]
  workingDirectory := []

theorem discover_erase_hidden_sharedTree :
    discover (sharedTree.erase [text "shared", text ".latest"]) (.path (.ofString "/docs"))
        = discover sharedTree (.path (.ofString "/docs"))
      ∧ discover sharedTree (.path (.ofString "/docs"))
        = .ok ⟨[text "docs"],
          [[text "docs", text "a.md"], [text "docs", text "more", text "b.md"]]⟩ := by
  have hroot : ∀ route, FileName.route? (RootName.path (.ofString "/docs")) = some route →
      ∀ q ∈ sharedTree.routeTrace route, ¬ [text "shared"] ++ [text ".latest"] <+: q := by
    intro route hroute
    cases hroute
    decide +kernel
  have hlinks : ∀ e ∈ encountered sharedTree (.path (.ofString "/docs")),
      e.place ≠ [text "shared"] ++ [text ".latest"] → sharedTree.isLink e.place = true →
        ∀ q ∈ e.trace sharedTree, ¬ [text "shared"] ++ [text ".latest"] <+: q := by
    decide +kernel
  exact ⟨(discover_erase_hidden (by decide) hroot hlinks).1 (by decide +kernel), by decide +kernel⟩

/-- A hidden link that no other link leads over can make the difference between an error and a
result. -/
theorem discover_ne_erase_danglingTree :
    isHidden (text ".b") = true
      ∧ (∀ q ∈ danglingTree.routeTrace (Path.route (.ofString "/docs")),
          ¬ [text "docs", text ".b"] <+: q)
      ∧ (∀ e ∈ encountered danglingTree (.path (.ofString "/docs")),
          e.place ≠ [text "docs", text ".b"] → danglingTree.isLink e.place = true →
            ∀ q ∈ e.trace danglingTree, ¬ [text "docs", text ".b"] <+: q)
      ∧ discover danglingTree (.path (.ofString "/docs"))
        = .error (.walk (.unreachable .notFound))
      ∧ discover (danglingTree.erase [text "docs", text ".b"]) (.path (.ofString "/docs"))
        = .ok ⟨[text "docs"], [[text "docs", text "a.md"]]⟩ := by
  refine ⟨by decide, by decide +kernel, by decide +kernel, by decide +kernel, by decide +kernel⟩

end Discovery
end DocAudit

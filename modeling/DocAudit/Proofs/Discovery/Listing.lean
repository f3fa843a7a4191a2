import DocAudit.Proofs.Discovery.Walk
import DocAudit.Proofs.FileTree.Descent
import DocAudit.Proofs.Outcome
import Mathlib.Tactic.SplitIfs

/-!
# What a discovery lists

A walk that ends without an error lists a file for every row of names that are
not hidden, if the names lead from directory to directory and at last to a file.
It lists nothing else.  `Found` says so along the recursion of the walk, and
`found_iff` says the same about the row of names as a whole.

The walk takes the names of a directory in their order.  Files beneath different
names of a directory stand in the order of these names, whatever follows them,
so that the files of the whole walk strictly ascend.

Two kinds of files are listed although one would not expect it.  A name that is
no text is not hidden even if its first octet is that of a dot.  And a file is
listed without a look at it, so that its path may be too long for the system to
open.  Every other file behind names without a dot at the start is listed.

**Results.**
* `mem_walk_iff`: a walk lists exactly the files that are found.
* `pairwise_walk`: the files of a walk strictly ascend.
* `isBelow_of_mem_files`: what is listed lies below the root.
* `isReachable_iff`: which files are listed that one would expect.
* `discover_lists`: which files a discovery lists, and in which order.
-/

namespace DocAudit

namespace Utf8

/-- Only a dot has an octet of its own that is that of a dot. -/
theorem head?_encode_eq_dot_iff (t : Text) :
    (encode t).head? = some Octets.dot ↔ t.head? = some '.' := by
  cases t with
  | nil => simp [encode]
  | cons c t =>
      rw [List.head?_cons, Option.some.injEq]
      constructor
      · intro h
        rw [encode, List.flatMap_cons, String.utf8EncodeChar] at h
        have hvalid := c.valid
        rw [← Char.toNat_inj, Char.toNat]
        simp only [UInt32.isValidChar, Nat.isValidChar] at hvalid
        generalize c.val.toNat = n at *
        split_ifs at h <;> simp [Octets.dot, ← UInt8.toNat_inj] at h ⊢ <;> omega
      · rintro rfl
        rfl

end Utf8

namespace FileName

variable {ν : Type} [FileName ν]

/-- Whether the first octet of a name is that of a dot. -/
def startsWithDot (name : ν) : Bool := (octets name).head? == some Octets.dot

end FileName

namespace Place

variable {ν : Type} [FileName ν]

/-- A place stands before another one in the order of names, the first name that differs
deciding. -/
def Precedes (place other : Place ν) : Prop :=
  place.map FileName.octets < other.map FileName.octets

theorem precedes_append {name other : ν} (h : FileName.Precedes name other)
    (place rest otherRest : Place ν) :
    Precedes (place ++ name :: rest) (place ++ other :: otherRest) := by
  simp only [Precedes, List.map_append, List.map_cons]
  exact List.append_left_lt (List.cons_lt_cons_iff.2 (Or.inl h))

theorem pathLength_append (place rest : Place ν) :
    (place ++ rest).pathLength = place.pathLength + rest.pathLength := by
  simp [pathLength]

/-- A path is not too long if a longer one is not. -/
theorem isTooLong_of_append {place rest : Place ν} (h : (place ++ rest).isTooLong = false) :
    place.isTooLong = false := by
  simp only [isTooLong, pathLength_append, decide_eq_false_iff_not] at h ⊢
  omega

end Place

namespace FileTree

variable {ν : Type} [DecidableEq ν] [FileName ν]

/-- What the system gives for the path of a place: nothing if the path is too long. -/
def opened? (tree : FileTree ν) (place : Place ν) : Option (Entry ν) :=
  if place.isTooLong then none else tree.target? place

end FileTree

namespace Discovery

variable {ν : Type} [DecidableEq ν] [FileName ν]

/-- The names that lead from a directory to a file that a walk finds, over at most so many links. -/
inductive Found (tree : FileTree ν) : Place ν → Nat → List ν → Prop
  | file {place goal : Place ν} {links left : Nat} {name : ν} {content : Option Octets} :
      isHidden name = false → tree.follow links place [.down name] = .ok (goal, left) →
      tree.get? goal = some (.file content) → Found tree place links [name]
  | beneath {place next : Place ν} {links left : Nat} {name : ν} {names : List ν} :
      isHidden name = false → tree.follow links place [.down name] = .ok (next, left) →
      tree.isDirectory next = true → Found tree next left names →
      Found tree place links (name :: names)

/-- A place that lies below another one by names of entries that are not hidden. -/
def IsBelow (base place : Place ν) : Prop :=
  ∃ names, names ≠ [] ∧ (∀ name ∈ names, FileName.isName name = true ∧ isHidden name = false)
    ∧ place = base ++ names

/-- A file that a discovery beneath a root lists: it goes on behind the root by names that are not
hidden.  Every shorter row of the names leads to a directory, and the whole row leads to a file. -/
def IsListed (tree : FileTree ν) (root file : Place ν) : Prop :=
  ∃ names, file = root ++ names ∧ names ≠ [] ∧ (∀ name ∈ names, isHidden name = false)
    ∧ (∀ front, front <+: names → front ≠ names →
        tree.target? (root ++ front) = some .directory)
    ∧ ∃ content, tree.target? file = some (.file content)

/-- A file that one would expect to be listed: it goes on behind the root by names whose first
octets are not those of a dot.  The system gives a directory for the path of every shorter row of
the names, and a file for that of the whole row. -/
def IsReachable (tree : FileTree ν) (root file : Place ν) : Prop :=
  ∃ names, file = root ++ names ∧ names ≠ []
    ∧ (∀ name ∈ names, FileName.startsWithDot name = false)
    ∧ (∀ front, front <+: names → front ≠ names →
        tree.opened? (root ++ front) = some .directory)
    ∧ ∃ content, tree.opened? file = some (.file content)

section

variable {tree : FileTree ν} {here visit : Visit ν} {place root : Place ν} {links : Nat} {name : ν}
  {names : List ν} {file : Place ν}

/-! ### Hidden names -/

omit [DecidableEq ν] in
/-- A name is hidden exactly if its first octet is that of a dot and it is a text. -/
theorem isHidden_iff : isHidden name = true
    ↔ FileName.startsWithDot name = true ∧ (FileName.text? name).isSome := by
  unfold isHidden FileName.startsWithDot
  cases htext : FileName.text? name with
  | none => simp
  | some t =>
      rw [FileName.text?_eq_some_iff] at htext
      simp [htext, Utf8.head?_encode_eq_dot_iff]

omit [DecidableEq ν] in
theorem isHidden_of_not_startsWithDot (h : FileName.startsWithDot name = false) :
    isHidden name = false := by
  rw [Bool.eq_false_iff]
  intro hhidden
  rw [(isHidden_iff.1 hhidden).1] at h
  cases h

/-- A text is hidden if it starts with a dot. -/
theorem isHidden_text (t : Text) : isHidden t = (t.head? == some '.') := rfl

/-! ### What is found -/

theorem isSome_of_follow_down (hplace : tree.isDirectory place = true) {r : Place ν × Nat}
    (h : tree.follow links place [.down name] = .ok r) : (tree.get? (place ++ [name])).isSome := by
  cases hentry : tree.get? (place ++ [name]) with
  | none =>
      rw [FileTree.follow_down hplace, hentry] at h
      cases h
  | some entry => rfl

theorem ne_directory_of_file {content : Option Octets}
    (h : tree.get? place = some (.file content)) : tree.isDirectory place = false := by
  simp [FileTree.isDirectory, h]

theorem Found.exists_cons (h : Found tree place links names) :
    ∃ name rest r, names = name :: rest
      ∧ tree.follow links place [.down name] = .ok r := by
  cases h with
  | file _ hfollow _ => exact ⟨_, _, _, rfl, hfollow⟩
  | beneath _ hfollow _ _ => exact ⟨_, _, _, rfl, hfollow⟩

theorem Found.ne_nil (h : Found tree place links names) : names ≠ [] := by
  cases h <;> exact List.cons_ne_nil _ _

/-- What is found is found by names of entries that are not hidden. -/
theorem Found.forall_isName (hplace : tree.isDirectory place = true)
    (h : Found tree place links names) :
    ∀ name ∈ names, FileName.isName name = true ∧ isHidden name = false := by
  induction h with
  | file hhidden hfollow _ =>
      have hname := (FileTree.isName_of_isSome_concat (isSome_of_follow_down hplace hfollow)).1
      simpa using ⟨hname, hhidden⟩
  | beneath hhidden hfollow hdirectory _ ih =>
      have hname := (FileTree.isName_of_isSome_concat (isSome_of_follow_down hplace hfollow)).1
      exact List.forall_mem_cons.2 ⟨⟨hname, hhidden⟩, ih hdirectory⟩

/-- An entry contributes what is found through its name, if that holds for what is entered. -/
theorem mem_visitEntry_iff {enter : Visit ν → Except WalkError (List (Place ν))}
    (henter : ∀ {visit files}, tree.isDirectory visit.place = true → enter visit = .ok files →
      ∀ file, file ∈ files ↔
        ∃ names, file = visit.reached ++ names ∧ Found tree visit.place visit.links names)
    {files : List (Place ν)} (h : visitEntry tree enter here name = .ok files) :
    file ∈ files ↔ ∃ rest, file = here.reached ++ name :: rest
      ∧ Found tree here.place here.links (name :: rest) := by
  rw [visitEntry] at h
  cases ho : outcome tree here name with
  | stops cause =>
      rw [ho] at h
      cases h
  | skipped =>
      rw [ho] at h
      cases h
      constructor
      · intro hfile
        cases hfile
      · rintro ⟨rest, _, hfound⟩
        rcases skips_of_outcome ho with hhidden | ⟨r, hfollow, hdirectory, hfile⟩
        · cases hfound <;> simp_all
        · cases hfound with
          | file _ hnext hgoal =>
              rw [hfollow] at hnext
              cases hnext
              exact absurd hgoal (hfile _)
          | beneath _ hnext hdirectory' _ =>
              rw [hfollow] at hnext
              cases hnext
              rw [hdirectory] at hdirectory'
              cases hdirectory'
  | listed listed =>
      rw [ho] at h
      cases h
      obtain ⟨⟨r, content, hfollow, hgoal⟩, hhidden, rfl⟩ := lists_of_outcome ho
      rw [List.mem_singleton]
      constructor
      · rintro rfl
        exact ⟨[], rfl, .file hhidden hfollow hgoal⟩
      · rintro ⟨rest, rfl, hfound⟩
        cases hfound with
        | file _ _ _ => rfl
        | beneath _ hnext hdirectory _ =>
            rw [hfollow] at hnext
            cases hnext
            rw [ne_directory_of_file hgoal] at hdirectory
            cases hdirectory
  | entered visit =>
      rw [ho] at h
      have henters := enters_of_outcome ho
      rw [henter henters.isDirectory h, henters.reached_eq, Visit.reach]
      constructor
      · rintro ⟨rest, rfl, hfound⟩
        exact ⟨rest, by simp,
          .beneath henters.not_hidden henters.follow_eq henters.isDirectory hfound⟩
      · rintro ⟨rest, rfl, hfound⟩
        cases hfound with
        | file _ hnext hgoal =>
            rw [henters.follow_eq] at hnext
            cases hnext
            have hdirectory := henters.isDirectory
            rw [ne_directory_of_file hgoal] at hdirectory
            cases hdirectory
        | beneath _ hnext _ hfound =>
            rw [henters.follow_eq] at hnext
            cases hnext
            exact ⟨rest, by simp, hfound⟩

omit [DecidableEq ν] [FileName ν] in
theorem collect_cons_eq_ok {visit : ν → Except WalkError (List (Place ν))}
    {files : List (Place ν)} (h : collect visit (name :: names) = .ok files) :
    ∃ first rest, visit name = .ok first ∧ collect visit names = .ok rest
      ∧ files = first ++ rest := by
  rw [collect] at h
  obtain ⟨first, hfirst, h⟩ := bind_eq_ok_iff.1 h
  obtain ⟨rest, hrest, h⟩ := bind_eq_ok_iff.1 h
  cases h
  exact ⟨first, rest, hfirst, hrest, rfl⟩

omit [DecidableEq ν] [FileName ν] in
theorem mem_collect_iff {visit : ν → Except WalkError (List (Place ν))} {files : List (Place ν)}
    (h : collect visit names = .ok files) :
    file ∈ files ↔ ∃ name ∈ names, ∃ part, visit name = .ok part ∧ file ∈ part := by
  induction names generalizing files with
  | nil =>
      cases h
      simp
  | cons name names ih =>
      obtain ⟨first, rest, hfirst, hrest, rfl⟩ := collect_cons_eq_ok h
      simp only [List.mem_append, ih hrest, List.mem_cons, exists_eq_or_imp, hfirst,
        Except.ok.injEq, exists_eq_left']

omit [DecidableEq ν] [FileName ν] in
theorem exists_of_collect {visit : ν → Except WalkError (List (Place ν))}
    {files : List (Place ν)} (h : collect visit names = .ok files) :
    ∀ name ∈ names, ∃ part, visit name = .ok part := by
  induction names generalizing files with
  | nil =>
      intro name hname
      cases hname
  | cons name names ih =>
      obtain ⟨first, rest, hfirst, hrest, rfl⟩ := collect_cons_eq_ok h
      intro n hn
      rcases List.mem_cons.1 hn with rfl | hn
      · exact ⟨first, hfirst⟩
      · exact ih hrest n hn

/-- A walk that ends without an error lists exactly the files that are found. -/
theorem mem_walk_iff {fuel : Nat} {files : List (Place ν)}
    (hplace : tree.isDirectory here.place = true) (h : walk tree fuel here = .ok files)
    (file : Place ν) :
    file ∈ files ↔
      ∃ names, file = here.reached ++ names ∧ Found tree here.place here.links names := by
  induction fuel generalizing here files file with
  | zero => cases h
  | succ fuel ih =>
      rw [walk_succ] at h
      rw [mem_collect_iff h]
      constructor
      · rintro ⟨name, _, part, hpart, hfile⟩
        obtain ⟨rest, hfile, hfound⟩ := (mem_visitEntry_iff ih hpart).1 hfile
        exact ⟨name :: rest, hfile, hfound⟩
      · rintro ⟨names, hfile, hfound⟩
        obtain ⟨name, rest, r, rfl, hfollow⟩ := hfound.exists_cons
        have hname : name ∈ tree.names here.place :=
          (FileTree.mem_names tree here.place name).2 (isSome_of_follow_down hplace hfollow)
        obtain ⟨part, hpart⟩ := exists_of_collect h name hname
        exact ⟨name, hname, part, hpart, (mem_visitEntry_iff ih hpart).2 ⟨rest, hfile, hfound⟩⟩

/-! ### The order of the files -/

omit [DecidableEq ν] in
/-- The files of a directory strictly ascend, if the files of each entry do. -/
theorem pairwise_collect {visit : ν → Except WalkError (List (Place ν))} {files : List (Place ν)}
    (reached : Place ν) (hnames : names.Pairwise FileName.Precedes)
    (hvisit : ∀ name ∈ names, ∀ part, visit name = .ok part →
      part.Pairwise Place.Precedes ∧ ∀ file ∈ part, ∃ rest, file = reached ++ name :: rest)
    (h : collect visit names = .ok files) : files.Pairwise Place.Precedes := by
  induction names generalizing files with
  | nil =>
      cases h
      exact List.Pairwise.nil
  | cons name names ih =>
      obtain ⟨hfirstName, hrestNames⟩ := List.pairwise_cons.1 hnames
      obtain ⟨first, rest, hfirst, hrest, rfl⟩ := collect_cons_eq_ok h
      obtain ⟨hpairwise, hbeneath⟩ := hvisit name List.mem_cons_self first hfirst
      have hothers := fun n hn => hvisit n (List.mem_cons_of_mem name hn)
      refine List.pairwise_append.2 ⟨hpairwise, ih hrestNames hothers hrest, ?_⟩
      intro file hfile other hother
      obtain ⟨n, hn, part, hpart, hother⟩ := (mem_collect_iff hrest).1 hother
      obtain ⟨inner, rfl⟩ := hbeneath file hfile
      obtain ⟨otherInner, rfl⟩ := (hothers n hn part hpart).2 other hother
      exact Place.precedes_append (hfirstName n hn) reached inner otherInner

theorem pairwise_walk {fuel : Nat} {files : List (Place ν)}
    (hplace : tree.isDirectory here.place = true) (h : walk tree fuel here = .ok files) :
    files.Pairwise Place.Precedes := by
  induction fuel generalizing here files with
  | zero => cases h
  | succ fuel ih =>
      rw [walk_succ] at h
      -- What is found through a name goes on behind it, so that the order of the names decides.
      refine pairwise_collect here.reached (FileTree.pairwise_names tree here.place) ?_ h
      intro name _ part hpart
      constructor
      · rw [visitEntry] at hpart
        split at hpart
        · cases hpart
        · cases hpart
          exact List.Pairwise.nil
        · cases hpart
          exact List.pairwise_singleton _ _
        · rename_i hentered
          exact ih (enters_of_outcome hentered).isDirectory hpart
      · intro file hfile
        have hbeneath : ∃ rest, file = here.reached ++ name :: rest
            ∧ Found tree here.place here.links (name :: rest) :=
          (mem_visitEntry_iff (fun hdirectory hwalk => mem_walk_iff hdirectory hwalk)
            hpart).1 hfile
        obtain ⟨rest, hrest, -⟩ := hbeneath
        exact ⟨rest, hrest⟩

/-! ### Rows of names as a whole -/

theorem follow_down_cons (tree : FileTree ν) (links : Nat) (place : Place ν) (name : ν)
    (names : List ν) :
    tree.follow links place ((name :: names).map .down)
      = (tree.follow links place [.down name]).bind fun r =>
          tree.follow r.2 r.1 (names.map .down) :=
  FileTree.follow_append tree links place [.down name] (names.map .down)

/-- What is found, said about the row of names as a whole. -/
theorem found_iff (hplace : tree.isDirectory place = true) :
    Found tree place links names ↔
      names ≠ [] ∧ (∀ name ∈ names, isHidden name = false)
        ∧ (∀ front, front <+: names → front ≠ names →
            ∃ r, tree.follow links place (front.map .down) = .ok r ∧ tree.isDirectory r.1 = true)
        ∧ ∃ content r, tree.follow links place (names.map .down) = .ok r
            ∧ tree.get? r.1 = some (.file content) := by
  constructor
  · intro h
    induction h with
    | file hhidden hfollow hgoal =>
        refine ⟨List.cons_ne_nil _ _, by simp [hhidden], ?_, _, _, hfollow, hgoal⟩
        intro front hfront hne
        cases front with
        | nil => exact ⟨_, FileTree.follow_nil _ _ _, hplace⟩
        | cons n front =>
            obtain ⟨hn, hnil⟩ := List.cons_prefix_cons.1 hfront
            rw [hn, List.prefix_nil.1 hnil] at hne
            exact absurd rfl hne
    | beneath hhidden hfollow hdirectory _ ih =>
        obtain ⟨-, hnames, hfronts, content, r, hr, hgoal⟩ := ih hdirectory
        refine ⟨List.cons_ne_nil _ _, List.forall_mem_cons.2 ⟨hhidden, hnames⟩, ?_, content, r, ?_,
          hgoal⟩
        · intro front hfront hne
          cases front with
          | nil => exact ⟨_, FileTree.follow_nil _ _ _, hplace⟩
          | cons n front =>
              obtain ⟨hn, hrest⟩ := List.cons_prefix_cons.1 hfront
              rw [hn] at hne ⊢
              rw [follow_down_cons, hfollow]
              exact hfronts front hrest fun he => hne (by rw [he])
        · rw [follow_down_cons, hfollow]
          exact hr
  · rintro ⟨hne, hnames, hfronts, content, r, hr, hgoal⟩
    induction names generalizing place links with
    | nil => exact absurd rfl hne
    | cons name names ih =>
        obtain ⟨hhidden, hrest⟩ := List.forall_mem_cons.1 hnames
        rw [follow_down_cons] at hr
        obtain ⟨next, hfollow, hr⟩ := bind_eq_ok_iff.1 hr
        -- The first name leads to a directory exactly when other names follow it.
        by_cases hnil : names = []
        · subst hnil
          rw [List.map_nil, FileTree.follow_nil] at hr
          cases hr
          exact .file hhidden hfollow hgoal
        · obtain ⟨r', hr', hdirectory⟩ := hfronts [name] (by simp) (by simpa using Ne.symm hnil)
          have hnext : r' = next := by
            rw [List.map_singleton, hfollow] at hr'
            exact (Except.ok.inj hr').symm
          subst hnext
          refine .beneath hhidden hfollow hdirectory (ih hdirectory hnil hrest ?_ hr)
          intro front hfront hfrontNe
          have hlong := hfronts (name :: front) (List.cons_prefix_cons.2 ⟨rfl, hfront⟩)
            fun he => hfrontNe (List.cons.inj he).2
          rwa [follow_down_cons, hfollow] at hlong

/-- What is found from a directory over all the links that a path may lead over is listed behind
it. -/
theorem isListed_append_iff (hdirectory : tree.isDirectory root = true) :
    IsListed tree root (root ++ names) ↔ Found tree root FileTree.maxLinks names := by
  rw [found_iff hdirectory]
  simp only [IsListed, List.append_cancel_left_eq, exists_eq_left',
    FileTree.target?_append hdirectory, FileTree.isDirectory_eq_true_iff]

/-! ### Discovery -/

theorem walk_of_discover {rootName : RootName} {discovery : Discovery ν}
    (h : discover tree rootName = .ok discovery) :
    tree.canonical rootName = .ok discovery.root ∧ tree.isDirectory discovery.root = true
      ∧ walk tree (fuel tree) (.start discovery.root) = .ok discovery.files := by
  unfold discover at h
  split at h
  · cases h
  · rename_i root hroot
    split at h
    · rename_i hdirectory
      split at h
      · cases h
      · rename_i files hfiles
        cases h
        exact ⟨hroot, FileTree.isDirectory_eq_true_iff.2 hdirectory, hfiles⟩
    · cases h
    · cases h

/-- What discovery finds lies below the root, by names that are not hidden. -/
theorem isBelow_of_mem_files {rootName : RootName} {discovery : Discovery ν}
    (h : discover tree rootName = .ok discovery) :
    ∀ file ∈ discovery.files, IsBelow discovery.root file := by
  obtain ⟨-, hdirectory, hwalk⟩ := walk_of_discover h
  intro file hfile
  obtain ⟨names, rfl, hfound⟩ := (mem_walk_iff hdirectory hwalk file).1 hfile
  exact ⟨names, hfound.ne_nil, hfound.forall_isName hdirectory, rfl⟩

/-- A file that one would expect to be listed is a listed one the path of which is not too long and
behind the root has no name that starts with the octet of a dot but is no text. -/
theorem isReachable_iff : IsReachable tree root file ↔
    IsListed tree root file ∧ file.isTooLong = false
      ∧ ∀ names, file = root ++ names → ∀ name ∈ names, FileName.startsWithDot name = true →
          (FileName.text? name).isSome := by
  constructor
  · rintro ⟨names, rfl, hne, hdots, hfronts, content, hfile⟩
    have htarget : ∀ {place entry}, tree.opened? place = some entry →
        place.isTooLong = false ∧ tree.target? place = some entry := by
      intro place entry hopened
      unfold FileTree.opened? at hopened
      split at hopened
      · cases hopened
      · rename_i hlength
        exact ⟨by simpa using hlength, hopened⟩
    refine ⟨⟨names, rfl, hne, fun name hname => isHidden_of_not_startsWithDot (hdots name hname),
      fun front hfront hshort => (htarget (hfronts front hfront hshort)).2, content,
      (htarget hfile).2⟩, (htarget hfile).1, ?_⟩
    intro others he name hname hdot
    rw [← List.append_cancel_left he] at hname
    rw [hdots name hname] at hdot
    cases hdot
  · rintro ⟨⟨names, rfl, hne, hhidden, hfronts, content, hfile⟩, hlength, htexts⟩
    refine ⟨names, rfl, hne, ?_, ?_, content, ?_⟩
    · intro name hname
      rw [Bool.eq_false_iff]
      intro hdot
      have hboth := isHidden_iff.2 ⟨hdot, htexts names rfl name hname hdot⟩
      rw [hhidden name hname] at hboth
      cases hboth
    · intro front hfront hshort
      obtain ⟨rest, rfl⟩ := hfront
      rw [← List.append_assoc] at hlength
      rw [FileTree.opened?, Place.isTooLong_of_append hlength]
      exact hfronts front (List.prefix_append _ _) hshort
    · rw [FileTree.opened?, hlength]
      exact hfile

end

/-- **What a discovery lists.**  Take a discovery that ends without an error.  It gives the
directory that the given root leads to, which is where the names of the directory lead as well.  The
files that it lists are exactly those behind this directory by names that are not hidden, where
every shorter row of the names leads to a directory and the whole row leads to a file.  Among them
are all the files that one would expect to be listed, and those are the ones the paths of which are
not too long and have no name that starts with a dot but is no text.  The files strictly ascend by
the octets of their names, so that none is listed twice.  Whether a name of the root is hidden does
not matter. -/
theorem discover_lists {ν : Type} [DecidableEq ν] [FileName ν] {tree : FileTree ν}
    {rootName : RootName} {discovery : Discovery ν}
    (h : discover tree rootName = .ok discovery) :
    tree.canonical rootName = .ok discovery.root
      ∧ tree.target? discovery.root = some .directory
      ∧ (∀ file, file ∈ discovery.files ↔ IsListed tree discovery.root file)
      ∧ (∀ file, IsReachable tree discovery.root file ↔
          file ∈ discovery.files ∧ file.isTooLong = false
            ∧ ∀ names, file = discovery.root ++ names →
                ∀ name ∈ names, FileName.startsWithDot name = true →
                  (FileName.text? name).isSome)
      ∧ discovery.files.Pairwise Place.Precedes := by
  obtain ⟨hroot, hdirectory, hwalk⟩ := walk_of_discover h
  have hlisted : ∀ file, file ∈ discovery.files ↔ IsListed tree discovery.root file := by
    intro file
    rw [mem_walk_iff hdirectory hwalk]
    constructor
    · rintro ⟨names, rfl, hfound⟩
      exact (isListed_append_iff hdirectory).2 hfound
    · intro hfile
      obtain ⟨names, rfl, -⟩ := id hfile
      exact ⟨names, rfl, (isListed_append_iff hdirectory).1 hfile⟩
  refine ⟨hroot, ?_, hlisted, fun file => ?_, pairwise_walk hdirectory hwalk⟩
  · rw [FileTree.target?, FileTree.follow_map_down (FileTree.isGoal_of_isDirectory hdirectory)]
    exact FileTree.isDirectory_eq_true_iff.1 hdirectory
  · rw [hlisted]
    exact isReachable_iff

/-- A tree with a hidden directory that a link leads to, where one file is reached by two paths. -/
def linkedTree : FileTree where
  entries :=
    [([text "home"], .directory),
      ([text "home", text "site"], .link (Path.route (.ofString "../.docs"))),
      ([text ".docs"], .directory), ([text ".docs", text "a.md"], .file (some [])),
      ([text ".docs", text "b"], .link (Path.route (.ofString "a"))),
      ([text ".docs", text "a"], .directory),
      ([text ".docs", text "a", text "z.md"], .file none),
      ([text ".docs", text "pipe"], .special),
      ([text ".docs", text ".git"], .closed),
      ([text ".docs", text ".git", text "config"], .file (some []))]
  workingDirectory := [text "home"]

/-- What is listed of the tree. -/
def linkedDiscovery : Discovery where
  root := [text ".docs"]
  files :=
    [[text ".docs", text "a", text "z.md"], [text ".docs", text "a.md"],
      [text ".docs", text "b", text "z.md"]]

theorem discover_lists_linkedTree :
    discover linkedTree (.path (.ofString "site")) = .ok linkedDiscovery
      ∧ (∀ file, file ∈ linkedDiscovery.files ↔ IsListed linkedTree linkedDiscovery.root file)
      ∧ IsReachable linkedTree linkedDiscovery.root [text ".docs", text "b", text "z.md"]
      ∧ linkedDiscovery.files.Pairwise Place.Precedes := by
  have hdiscover : discover linkedTree (.path (.ofString "site")) = .ok linkedDiscovery := by
    decide +kernel
  obtain ⟨_, _, hlisted, hreachable, hascending⟩ := discover_lists hdiscover
  refine ⟨hdiscover, hlisted, (hreachable _).2 ⟨by decide, by decide +kernel, ?_⟩, hascending⟩
  intro _ _ name _ _
  exact rfl

/-- A tree with a file the name of which starts with the octet of a dot and is no text. -/
def rawTree : FileTree Octets where
  entries :=
    [([Utf8.encode (text "docs")], .directory),
      ([Utf8.encode (text "docs"), Utf8.encode (text "a.md")], .file (some [])),
      ([Utf8.encode (text "docs"), [0x2E, 0xFF]], .file (some []))]
  workingDirectory := []

/-- A file can be listed although one of its names starts with the octet of a dot. -/
theorem discover_lists_unexpected_rawTree :
    discover rawTree (.path (.ofString "docs"))
        = .ok ⟨[Utf8.encode (text "docs")],
          [[Utf8.encode (text "docs"), [0x2E, 0xFF]],
            [Utf8.encode (text "docs"), Utf8.encode (text "a.md")]]⟩
      ∧ ¬ IsReachable rawTree [Utf8.encode (text "docs")]
        [Utf8.encode (text "docs"), [0x2E, 0xFF]] := by
  refine ⟨by decide +kernel, ?_⟩
  rintro ⟨names, he, -, hdots, -⟩
  have hnames : names = [[0x2E, 0xFF]] := (List.cons.inj he).2.symm
  have hdot := hdots [0x2E, 0xFF] (by rw [hnames]; exact List.mem_singleton_self _)
  exact absurd hdot (by decide)

end Discovery
end DocAudit

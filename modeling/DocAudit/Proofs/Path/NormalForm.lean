import DocAudit.Proofs.Path.Components
import Mathlib.Data.List.Count

/-!
# How far a path climbs

A path is read with a stack.  A step up takes the last name back.  Where no name
is left it climbs: from the root of the file system there is nowhere to climb to,
and of a relative path the step has to stay.  The path that is left this way is
the lexical one.

Normalisation keeps such a step on the stack, but takes it back like a name when
the next step climbs.  Of the climbs of a path only an odd one is therefore left
over.

**Results.**
* `foldl_stack`: a rule that follows a reading step by step follows a whole run.
* `normalComponents_eq`, `lexicalComponents_eq`: the components that normalisation
  and the lexical reading leave.
* `components_ofComponents_formed`: such components are read back from the path
  that is written from them.
* `normalize_parity`: when a path is normalised to the lexical one.
-/

namespace DocAudit

namespace Path

/-! ### Reading with a stack -/

/-- One step of reading, the last component first on the stack. -/
def lexicalStep (absolute : Bool) (stack : List Component) : Component → List Component
  | .here => stack
  | .up =>
      match stack with
      | .name _ :: rest => rest
      | _ => if absolute then stack else .up :: stack
  | c => c :: stack

/-- The components that are left of a path. -/
def lexicalComponents (p : Path) : List Component :=
  (p.components.foldl (lexicalStep p.isAbsolute) []).reverse

/-- The path without steps that stay, without names that are taken back, and without climbs above
the root of the file system. -/
def lexical (p : Path) : Path := ofComponents p.lexicalComponents

/-- What a path comes to when it is read from left to right. -/
structure Reading where
  /-- The number of steps up that found no name to take back. -/
  climbs : Nat
  /-- The names that are left, the last one first. -/
  names : List Text

namespace Reading

def step (reading : Reading) : Component → Reading
  | .up =>
      match reading.names with
      | [] => ⟨reading.climbs + 1, []⟩
      | _ :: names => ⟨reading.climbs, names⟩
  | .name s => ⟨reading.climbs, s :: reading.names⟩
  | _ => reading

/-- The names that are left on top of a number of steps up. -/
def stack (reading : Reading) (ups : Nat) (base : List Component) : List Component :=
  reading.names.map .name ++ (List.replicate ups .up ++ base)

/-- The names that are left were read. -/
theorem mem_names_foldl {components : List Component} {reading : Reading} {s : Text}
    (h : s ∈ (components.foldl step reading).names) : s ∈ reading.names ∨ .name s ∈ components := by
  induction components generalizing reading with
  | nil => exact Or.inl h
  | cons c components ih =>
      rcases ih h with hstep | hlater
      · cases c with
        | root => exact Or.inl hstep
        | here => exact Or.inl hstep
        | up =>
            rw [step] at hstep
            split at hstep
            · cases hstep
            · rename_i hnames
              rw [hnames]
              exact Or.inl (List.mem_cons_of_mem _ hstep)
        | name t =>
            rcases List.mem_cons.1 hstep with rfl | hold
            · exact Or.inr List.mem_cons_self
            · exact Or.inl hold
      · exact Or.inr (List.mem_cons_of_mem c hlater)

/-- A rule on stacks that follows a reading step by step follows a whole run. -/
theorem foldl_stack {rule : List Component → Component → List Component} (ups : Reading → Nat)
    {base : List Component}
    (hrule : ∀ (reading : Reading) (c : Component), c ≠ .root →
      rule (reading.stack (ups reading) base) c
        = (reading.step c).stack (ups (reading.step c)) base)
    {components : List Component} (h : .root ∉ components) (reading : Reading) :
    components.foldl rule (reading.stack (ups reading) base)
      = (components.foldl step reading).stack (ups (components.foldl step reading)) base := by
  induction components generalizing reading with
  | nil => rfl
  | cons c components ih =>
      rw [List.mem_cons, not_or] at h
      rw [List.foldl_cons, List.foldl_cons, hrule reading c (Ne.symm h.1), ih h.2]

/-- Normalisation keeps the climbs modulo two. -/
theorem normalStep_stack {base : List Component} (hbase : base = [] ∨ base = [.root])
    (reading : Reading) {c : Component} (hc : c ≠ .root) :
    normalStep (reading.stack (reading.climbs % 2) base) c
      = (reading.step c).stack ((reading.step c).climbs % 2) base := by
  obtain ⟨climbs, names⟩ := reading
  cases c with
  | root => exact absurd rfl hc
  | here => rfl
  | name s => rfl
  | up =>
      cases names with
      | cons s names => rfl
      | nil =>
          rcases Nat.mod_two_eq_zero_or_one climbs with heven | hodd
          · have hnext : (climbs + 1) % 2 = 1 := by omega
            rcases hbase with rfl | rfl <;> simp [stack, step, normalStep, heven, hnext]
          · have hnext : (climbs + 1) % 2 = 0 := by omega
            rcases hbase with rfl | rfl <;> simp [stack, step, normalStep, hodd, hnext]

/-- In a relative path every climb stays. -/
theorem lexicalStep_stack_relative (reading : Reading) {c : Component} (hc : c ≠ .root) :
    lexicalStep false (reading.stack reading.climbs []) c
      = (reading.step c).stack (reading.step c).climbs [] := by
  obtain ⟨climbs, names⟩ := reading
  cases c with
  | root => exact absurd rfl hc
  | here => rfl
  | name s => rfl
  | up =>
      cases names with
      | cons s names => rfl
      | nil => cases climbs <;> rfl

/-- In an absolute path no climb stays. -/
theorem lexicalStep_stack_absolute (reading : Reading) {c : Component} (hc : c ≠ .root) :
    lexicalStep true (reading.stack 0 [.root]) c = (reading.step c).stack 0 [.root] := by
  obtain ⟨climbs, names⟩ := reading
  cases c with
  | root => exact absurd rfl hc
  | here => rfl
  | name s => rfl
  | up =>
      cases names with
      | cons s names => rfl
      | nil => rfl

end Reading

/-- What a path comes to. -/
def reading (p : Path) : Reading := p.components.foldl Reading.step ⟨0, []⟩

/-- The number of steps up of a path that find no name to take back. -/
def climbs (p : Path) : Nat := p.reading.climbs

/-- The names that are left of a path. -/
def names (p : Path) : List Text := p.reading.names.reverse

/-- The root, if the path starts there. -/
def start (p : Path) : List Component := if p.isAbsolute then [.root] else []

/-- What is left of a path behind the root, with a number of steps up for its climbs. -/
def remainder (p : Path) (ups : Nat) : List Component :=
  List.replicate ups .up ++ p.names.map .name

/-- What is left of a path, with a number of steps up for its climbs. -/
def formed (p : Path) (ups : Nat) : List Component := p.start ++ p.remainder ups

theorem root_notMem_innerComponents (segments : List Text) :
    .root ∉ innerComponents segments := by
  intro h
  obtain ⟨s, _, hs⟩ := List.mem_filterMap.1 h
  unfold Component.ofSegment? at hs
  split at hs
  · cases hs
  · split at hs <;> cases hs

/-- The root is the first component of an absolute path and no other component, and reading starts
behind it. -/
theorem exists_components_eq (p : Path) :
    ∃ rest, p.components = p.start ++ rest ∧ .root ∉ rest
      ∧ rest.foldl Reading.step ⟨0, []⟩ = p.reading := by
  have hsplit : ∃ rest, p.components = p.start ++ rest ∧ .root ∉ rest := by
    have hroot := root_notMem_innerComponents (Text.splitOn '/' p.text)
    unfold components start
    simp only
    split
    · exact ⟨_, rfl, hroot⟩
    · split
      · refine ⟨_, rfl, ?_⟩
        rw [List.mem_cons, not_or]
        exact ⟨by simp, hroot⟩
      · exact ⟨_, rfl, hroot⟩
  have hstart : p.start.foldl Reading.step ⟨0, []⟩ = ⟨0, []⟩ := by
    unfold start
    split <;> rfl
  obtain ⟨rest, hcomponents, hroot⟩ := hsplit
  refine ⟨rest, hcomponents, hroot, ?_⟩
  rw [reading, hcomponents, List.foldl_append, hstart]

theorem reverse_stack_reading (p : Path) (ups : Nat) :
    (p.reading.stack ups p.start).reverse = p.formed ups := by
  have hstart : p.start.reverse = p.start := by
    unfold start
    split <;> rfl
  simp only [Reading.stack, formed, remainder, names, List.reverse_append, List.reverse_replicate,
    ← List.map_reverse, hstart, List.append_assoc]

/-- Of the climbs of a path normalisation leaves an odd one. -/
theorem normalComponents_eq (p : Path) :
    normalComponents p.components = p.formed (p.climbs % 2) := by
  obtain ⟨rest, hcomponents, hroot, hreading⟩ := exists_components_eq p
  have hbase : p.start = [] ∨ p.start = [.root] := by
    unfold start
    split
    · exact Or.inr rfl
    · exact Or.inl rfl
  have hstart : p.start.foldl normalStep [] = (⟨0, []⟩ : Reading).stack 0 p.start := by
    unfold start
    split <;> rfl
  have hrun := Reading.foldl_stack (fun reading => reading.climbs % 2)
    (fun reading _ => Reading.normalStep_stack hbase reading) hroot ⟨0, []⟩
  rw [hreading] at hrun
  rw [normalComponents, hcomponents, List.foldl_append, hstart, ← reverse_stack_reading]
  exact congrArg List.reverse hrun

/-- The climbs of a relative path are left, and those of an absolute one are not. -/
theorem lexicalComponents_eq (p : Path) :
    p.lexicalComponents = p.formed (if p.isAbsolute then 0 else p.climbs) := by
  obtain ⟨rest, hcomponents, hroot, hreading⟩ := exists_components_eq p
  rw [← reverse_stack_reading, lexicalComponents, hcomponents, List.foldl_append]
  cases habsolute : p.isAbsolute with
  | true =>
      have hrun := Reading.foldl_stack (fun _ => 0)
        (fun reading _ => Reading.lexicalStep_stack_absolute reading) hroot ⟨0, []⟩
      rw [hreading] at hrun
      simp only [start, habsolute, if_true]
      exact congrArg List.reverse hrun
  | false =>
      have hrun := Reading.foldl_stack Reading.climbs
        (fun reading _ => Reading.lexicalStep_stack_relative reading) hroot ⟨0, []⟩
      rw [hreading] at hrun
      simp only [start, habsolute, Bool.false_eq_true, if_false]
      exact congrArg List.reverse hrun

/-! ### Writing what is left -/

theorem isSegment_of_mem_components {p : Path} {s : Text} (h : .name s ∈ p.components) :
    IsSegment s := by
  unfold components at h
  simp only at h
  split at h
  · rcases List.mem_cons.1 h with he | h
    · cases he
    · exact isSegment_of_mem_innerComponents h
  · split at h
    · rcases List.mem_cons.1 h with he | h
      · cases he
      · exact isSegment_of_mem_innerComponents h
    · exact isSegment_of_mem_innerComponents h

/-- A component that its written form makes again. -/
def Component.IsWritten (c : Component) : Prop :=
  '/' ∉ c.segment ∧ Component.ofSegment? c.segment = some c

/-- Whatever is left of a path behind the root is made again by its written form. -/
theorem isWritten_of_mem_remainder {p : Path} {ups : Nat} {c : Component}
    (h : c ∈ p.remainder ups) : c.IsWritten := by
  rcases List.mem_append.1 h with hup | hname
  · rw [List.eq_of_mem_replicate hup]
    exact ⟨by decide, rfl⟩
  · obtain ⟨s, hs, rfl⟩ := List.mem_map.1 hname
    have hsegment : IsSegment s := by
      rcases Reading.mem_names_foldl (List.mem_reverse.1 hs) with hnone | hmem
      · cases hnone
      · exact isSegment_of_mem_components hmem
    exact ⟨hsegment.slash_notMem, ofSegment?_eq_name hsegment⟩

section

variable {components : List Component} (h : ∀ c ∈ components, c.IsWritten)
include h

theorem innerComponents_map_segment :
    innerComponents (components.map Component.segment) = components := by
  induction components with
  | nil => rfl
  | cons c components ih =>
      obtain ⟨hc, hrest⟩ := List.forall_mem_cons.1 h
      have hlater := ih hrest
      rw [innerComponents] at hlater ⊢
      rw [List.map_cons, List.filterMap_cons_some hc.2, hlater]

theorem slash_notMem_of_mem_map_segment :
    ∀ s ∈ components.map Component.segment, '/' ∉ s := by
  intro s hs
  obtain ⟨c, hc, rfl⟩ := List.mem_map.1 hs
  exact (h c hc).1

/-- Components that are written with slashes between them are read back. -/
theorem components_joinWith :
    (⟨Text.joinWith ['/'] (components.map Component.segment)⟩ : Path).components = components := by
  cases components with
  | nil => rfl
  | cons c rest =>
      have hc := h c List.mem_cons_self
      have hne : c.segment ≠ [] := by
        intro he
        have hnone : Component.ofSegment? [] = none := rfl
        rw [Component.IsWritten, he, hnone] at hc
        cases hc.2
      have hhere : c.segment ≠ ['.'] := by
        intro he
        have hnone : Component.ofSegment? ['.'] = none := rfl
        rw [Component.IsWritten, he, hnone] at hc
        cases hc.2
      have hsplit : Text.splitOn '/' (Text.joinWith ['/'] ((c :: rest).map Component.segment))
          = (c :: rest).map Component.segment :=
        Text.splitOn_joinWith (List.cons_ne_nil _ _) (slash_notMem_of_mem_map_segment h)
      have habsolute : (⟨Text.joinWith ['/'] ((c :: rest).map Component.segment)⟩ : Path).isAbsolute
          = false := by
        rw [isAbsolute, List.map_cons, Text.head?_joinWith hne, beq_eq_false_iff_ne]
        exact fun he => hc.1 (List.mem_of_mem_head? he)
      have hhead : ((c :: rest).map Component.segment).head? ≠ some ['.'] :=
        fun he => hhere (Option.some.inj he)
      simp only [components, habsolute, Bool.false_eq_true, if_false, hsplit, hhead]
      exact innerComponents_map_segment h

/-- Behind the root, too. -/
theorem components_slash_joinWith :
    (⟨'/' :: Text.joinWith ['/'] (components.map Component.segment)⟩ : Path).components
      = .root :: components := by
  rw [components_slash, innerComponents_splitOn_joinWith (slash_notMem_of_mem_map_segment h),
    innerComponents_map_segment h]

end

/-- What is left of a path is read back from the path that is written from it. -/
theorem components_ofComponents_formed (p : Path) (ups : Nat) :
    (ofComponents (p.formed ups)).components = p.formed ups := by
  have hwritten : ∀ c ∈ p.remainder ups, c.IsWritten := fun _ => isWritten_of_mem_remainder
  unfold formed start
  split
  · exact components_slash_joinWith hwritten
  · have hplain : ofComponents (p.remainder ups)
        = ⟨Text.joinWith ['/'] ((p.remainder ups).map Component.segment)⟩ := by
      unfold ofComponents
      split
      · rename_i rest he
        have hroot : Component.root ∈ p.remainder ups := by
          rw [he]
          exact List.mem_cons_self
        have hnone : Component.ofSegment? Component.root.segment = none := rfl
        have hsome := (hwritten _ hroot).2
        rw [hnone] at hsome
        cases hsome
      · rfl
    rw [List.nil_append, hplain]
    exact components_joinWith hwritten

section

variable (p : Path) (ups : Nat)

theorem count_root_formed : (p.formed ups).count .root = if p.isAbsolute then 1 else 0 := by
  have hremainder : (p.remainder ups).count .root = 0 := by
    simp [remainder, List.count_eq_zero, List.mem_replicate]
  rw [formed, List.count_append, hremainder, Nat.add_zero, start]
  split <;> rfl

theorem count_up_formed : (p.formed ups).count .up = ups := by
  have hstart : p.start.count .up = 0 := by
    unfold start
    split <;> rfl
  have hnames : (p.names.map Component.name).count .up = 0 := by simp [List.count_eq_zero]
  rw [formed, remainder, List.count_append, List.count_append, List.count_replicate_self, hstart,
    hnames, Nat.zero_add, Nat.add_zero]

theorem filterMap_name?_formed : (p.formed ups).filterMap Component.name? = p.names := by
  have hstart : p.start.filterMap Component.name? = [] := by
    unfold start
    split <;> rfl
  have hups : (List.replicate ups Component.up).filterMap Component.name? = [] :=
    List.filterMap_eq_nil_iff.2 fun c hc => by rw [List.eq_of_mem_replicate hc]; rfl
  have hname : Component.name? ∘ Component.name = some := rfl
  rw [formed, remainder, List.filterMap_append, List.filterMap_append, hstart, hups,
    List.filterMap_map, hname, List.filterMap_some, List.nil_append, List.nil_append]

end

/-- A path that is written from what is left of a path tells all of it. -/
theorem ofComponents_formed_inj {p q : Path} {m n : Nat} :
    ofComponents (p.formed m) = ofComponents (q.formed n)
      ↔ p.isAbsolute = q.isAbsolute ∧ m = n ∧ p.names = q.names := by
  constructor
  · intro h
    have hformed := congrArg components h
    rw [components_ofComponents_formed, components_ofComponents_formed] at hformed
    have hroots := congrArg (List.count Component.root) hformed
    have hups := congrArg (List.count Component.up) hformed
    have hnames := congrArg (List.filterMap Component.name?) hformed
    rw [count_root_formed, count_root_formed] at hroots
    rw [count_up_formed, count_up_formed] at hups
    rw [filterMap_name?_formed, filterMap_name?_formed] at hnames
    refine ⟨?_, hups, hnames⟩
    cases hp : p.isAbsolute <;> cases hq : q.isAbsolute <;> simp [hp, hq] at hroots ⊢
  · rintro ⟨habsolute, rfl, hnames⟩
    rw [formed, formed, start, start, remainder, remainder, habsolute, hnames]

/-- **Normalisation and climbs.**  Of the climbs of a path the lexical reading leaves all if the
path is relative and none if it is absolute, and normalisation leaves one if their number is odd and
none if it is even; the names that are left are the same.  A relative path is therefore normalised
to its lexical form exactly if it climbs once at most, and an absolute one if the number of its
climbs is even.  Two paths of one lexical form are normalised to the same path, unless they are
absolute and their numbers of climbs differ by an odd number. -/
theorem normalize_parity (p : Path) :
    p.normalize.components = p.formed (p.climbs % 2)
      ∧ p.lexical.components = p.formed (if p.isAbsolute then 0 else p.climbs)
      ∧ (p.normalize = p.lexical ↔ if p.isAbsolute then p.climbs % 2 = 0 else p.climbs ≤ 1)
      ∧ ∀ q : Path, p.lexical = q.lexical →
          (p.normalize = q.normalize ↔ (p.isAbsolute = true → p.climbs % 2 = q.climbs % 2)) := by
  have hnormalize : ∀ q : Path, q.normalize = ofComponents (q.formed (q.climbs % 2)) := by
    intro q
    rw [normalize, normalComponents_eq]
  have hlexical : ∀ q : Path, q.lexical
      = ofComponents (q.formed (if q.isAbsolute then 0 else q.climbs)) := by
    intro q
    rw [lexical, lexicalComponents_eq]
  refine ⟨?_, ?_, ?_, ?_⟩
  · rw [hnormalize, components_ofComponents_formed]
  · rw [hlexical, components_ofComponents_formed]
  · rw [hnormalize, hlexical, ofComponents_formed_inj]
    split
    · simp
    · have hparity : p.climbs % 2 = p.climbs ↔ p.climbs ≤ 1 := by omega
      simp [hparity]
  · intro q h
    rw [hlexical, hlexical, ofComponents_formed_inj] at h
    obtain ⟨habsolute, hclimbs, hnames⟩ := h
    rw [hnormalize, hnormalize, ofComponents_formed_inj, and_iff_right habsolute,
      and_iff_left hnames]
    constructor
    · exact fun hparity _ => hparity
    · intro hparity
      cases hp : p.isAbsolute with
      | true => exact hparity hp
      | false =>
          rw [← habsolute, hp] at hclimbs
          have hsame : p.climbs = q.climbs := hclimbs
          rw [hsame]

theorem normalize_parity_sample :
    (ofString "a/../../b/./c/..").normalize = .ofString "../b"
      ∧ (ofString "a/../../b/./c/..").lexical = .ofString "../b"
      ∧ (ofString "/a/../../../b").lexical = (ofString "//./b").lexical
      ∧ (ofString "/a/../../../b").normalize = (ofString "//./b").normalize := by
  have honce : (ofString "a/../../b/./c/..").normalize = (ofString "a/../../b/./c/..").lexical :=
    (normalize_parity _).2.2.1.2 (by decide +kernel)
  have hlexical : (ofString "/a/../../../b").lexical = (ofString "//./b").lexical := by
    decide +kernel
  have htwice : (ofString "/a/../../../b").normalize = (ofString "//./b").normalize :=
    ((normalize_parity _).2.2.2 _ hlexical).2 fun _ => by decide +kernel
  have hform : (ofString "a/../../b/./c/..").lexical = .ofString "../b" := by decide +kernel
  exact ⟨honce.trans hform, hform, hlexical, htwice⟩

/-- A second climb takes the first one back, and a climb from the root stays. -/
theorem normalize_ne_lexical :
    (ofString "../../b").lexical = .ofString "../../b"
      ∧ (ofString "../../b").normalize = .ofString "b"
      ∧ (ofString "../../b").normalize ≠ (ofString "../../b").lexical
      ∧ (ofString "/../b").lexical = (ofString "/b").lexical
      ∧ (ofString "/../b").normalize ≠ (ofString "/b").normalize := by
  decide +kernel

end Path

end DocAudit

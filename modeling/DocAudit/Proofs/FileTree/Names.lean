import DocAudit.Proofs.FileTree.Trace

/-!
# The names in a directory

The names in a directory strictly ascend by their octets, so that a directory
has one list of names for one set of them.

**Results.**
* `pairwise_names`: the names strictly ascend.
* `names_erase`: without an entry its directory holds all the other names, and
  every other directory the same ones.
-/

namespace DocAudit

namespace FileName

variable {ν : Type} [FileName ν]

/-- A name stands before another one in the order of octets. -/
def Precedes (name other : ν) : Prop := octets name < octets other

namespace Precedes

theorem irrefl (name : ν) : ¬ Precedes name name := List.lt_irrefl _

theorem trans {a b c : ν} (hab : Precedes a b) (hbc : Precedes b c) : Precedes a c :=
  List.lt_trans hab hbc

theorem ne {a b : ν} (h : Precedes a b) : a ≠ b := by
  rintro rfl
  exact irrefl a h

/-- Of two names one stands before the other. -/
theorem of_not {a b : ν} (h : ¬ Precedes a b) (hne : a ≠ b) : Precedes b a :=
  Std.lt_of_le_of_ne (List.not_lt.1 h) fun e => hne (octets_injective e.symm)

end Precedes

end FileName

namespace FileTree

variable {ν : Type} [DecidableEq ν] [FileName ν]

theorem pairwise_insertName {names : List ν} (name : ν)
    (h : names.Pairwise FileName.Precedes) :
    (insertName name names).Pairwise FileName.Precedes := by
  induction names with
  | nil => exact List.pairwise_singleton _ _
  | cons n names ih =>
      obtain ⟨hfirst, hrest⟩ := List.pairwise_cons.1 h
      rw [insertName]
      split
      · exact h
      · rename_i hne
        split
        · rename_i hlt
          refine List.pairwise_cons.2 ⟨?_, h⟩
          intro m hm
          rcases List.mem_cons.1 hm with rfl | hm
          · exact hlt
          · exact FileName.Precedes.trans hlt (hfirst m hm)
        · rename_i hnot
          have hlt : FileName.Precedes n name := FileName.Precedes.of_not hnot hne
          refine List.pairwise_cons.2 ⟨?_, ih hrest⟩
          intro m hm
          rcases (mem_insertName name m names).1 hm with rfl | hm
          · exact hlt
          · exact hfirst m hm

theorem pairwise_names (tree : FileTree ν) (directory : Place ν) :
    (tree.names directory).Pairwise FileName.Precedes := by
  unfold names
  generalize (tree.entries.filterMap fun e => Place.nameIn? directory e.1).filter
    (fun name => (tree.get? (directory ++ [name])).isSome) = unsorted
  induction unsorted with
  | nil => exact List.Pairwise.nil
  | cons name unsorted ih => exact pairwise_insertName name ih

omit [DecidableEq ν] in
theorem eq_of_pairwise_precedes {names others : List ν}
    (hnames : names.Pairwise FileName.Precedes) (hothers : others.Pairwise FileName.Precedes)
    (h : ∀ name, name ∈ names ↔ name ∈ others) : names = others := by
  have hperm : names.Perm others :=
    (List.perm_ext_iff_of_nodup (hnames.imp FileName.Precedes.ne)
      (hothers.imp FileName.Precedes.ne)).2 h
  refine hperm.eq_of_pairwise ?_ hnames hothers
  intro a b _ _ hab hba
  exact absurd (hab.trans hba) (FileName.Precedes.irrefl a)

/-- Without an entry, a directory that does not lie in it holds the other names that it held. -/
theorem names_erase (tree : FileTree ν) {directory entry : Place ν} (hentry : entry ≠ [])
    (hdirectory : ¬ entry <+: directory) :
    (tree.erase entry).names directory
      = (tree.names directory).filter fun name => directory ++ [name] ≠ entry := by
  refine eq_of_pairwise_precedes (pairwise_names _ _) ((pairwise_names _ _).filter _) ?_
  intro name
  have hwithin : entry <+: directory ++ [name] ↔ directory ++ [name] = entry := by
    rw [List.prefix_concat_iff]
    constructor
    · rintro (h | h)
      · exact h.symm
      · exact absurd h hdirectory
    · intro h
      exact Or.inl h.symm
  rw [List.mem_filter, mem_names, mem_names, get?_erase tree hentry, decide_eq_true_eq]
  split
  · rename_i h
    simp [hwithin.1 h]
  · rename_i h
    have hne : directory ++ [name] ≠ entry := fun e => h (hwithin.2 e)
    simp only [hne, ne_eq, not_false_eq_true, and_true]

end FileTree
end DocAudit

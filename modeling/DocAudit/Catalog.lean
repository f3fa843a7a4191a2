import Std.Data.HashSet
import Std.Data.TreeSet
import DocAudit.Path

/-!
# Catalogs

A catalog tells which files exist.  It is built from the paths of the files
and kept as an ordered set or as a hashed set; both answer by the components
of a path, so that the way in which a path is written does not matter.

The main statements are that either catalog holds exactly the places of the
paths that it was built from.
-/

namespace DocAudit

namespace Path

namespace Component

/-- A component as numbers, different ones for different components. -/
def code : Component → List Nat
  | root => [0]
  | here => [1]
  | up => [2]
  | name s => 3 :: s.map Char.toNat

theorem code_injective {a b : Component} (h : a.code = b.code) : a = b := by
  cases a with
  | root => cases b <;> simp_all [code]
  | here => cases b <;> simp_all [code]
  | up => cases b <;> simp_all [code]
  | name s =>
      cases b with
      | name t =>
          have hinj : Function.Injective Char.toNat := fun x y e => Char.toNat_inj.1 e
          simp only [code, List.cons.injEq, true_and] at h
          rw [(List.map_inj_right fun _ _ e => hinj e).1 h]
      | root => simp_all [code]
      | here => simp_all [code]
      | up => simp_all [code]

end Component

/-- What sets of paths know of a path. -/
abbrev Key := List (List Nat)

/-- The components of a path as numbers. -/
def key (p : Path) : Key := p.components.map Component.code

/-- Paths have the same key exactly when they are the same place. -/
theorem key_eq_iff (p q : Path) : p.key = q.key ↔ p.components = q.components :=
  List.map_inj_right fun _ _ e => Component.code_injective e

end Path

/-- A set of files. -/
structure Catalog where
  /-- Whether there is a file at a path. -/
  contains : Path → Bool

namespace Catalog

/-- The catalog of paths, kept as an ordered set. -/
def ordered (paths : List Path) : Catalog :=
  let set := Std.TreeSet.ofList (paths.map Path.key)
  ⟨fun p => set.contains p.key⟩

/-- The catalog of paths, kept as a hashed set. -/
def hashed (paths : List Path) : Catalog :=
  let set := Std.HashSet.ofList (paths.map Path.key)
  ⟨fun p => set.contains p.key⟩

theorem contains_ordered (paths : List Path) (p : Path) :
    (ordered paths).contains p = true ↔ ∃ q ∈ paths, p.components = q.components := by
  simp [ordered, Std.TreeSet.contains_ofList, Path.key_eq_iff, eq_comm]

theorem contains_hashed (paths : List Path) (p : Path) :
    (hashed paths).contains p = true ↔ ∃ q ∈ paths, p.components = q.components := by
  simp [hashed, Std.HashSet.contains_ofList, Path.key_eq_iff, eq_comm]

end Catalog

end DocAudit

import RouteScript.Proofs.Tree.Hang
/-!
# What nodes are stays

An edit moves and marks nodes, but none becomes a node of another kind. That is so in every store,
also where its links do not agree and a walk along them would come back.
-/
namespace RouteScript
namespace Tree

variable {t u v : Tree} {p c x : NodeId}

/-- The nodes of the first store are in the second as well, and of the same kinds. -/
structure KeepsKinds (t u : Tree) : Prop where
  size_le : t.size ≤ u.size
  kind : ∀ x, x < t.size → u.kind x = t.kind x

namespace KeepsKinds

theorem refl (t : Tree) : t.KeepsKinds t := ⟨Nat.le_refl _, fun _ _ => rfl⟩

theorem trans (h : t.KeepsKinds u) (k : u.KeepsKinds v) : t.KeepsKinds v where
  size_le := Nat.le_trans h.size_le k.size_le
  kind x hx := by rw [k.kind x (Nat.lt_of_lt_of_le hx h.size_le), h.kind x hx]

/-- Adding a node to a store changes nothing about those that are there. -/
theorem push (t : Tree) (n : Node) : t.KeepsKinds (t.push n).2 where
  size_le := by simp
  kind x hx := by rw [Tree.kind, node_push, if_neg (Nat.ne_of_lt hx)]

end KeepsKinds

end Tree
end RouteScript

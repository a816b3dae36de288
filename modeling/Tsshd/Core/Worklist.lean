import Mathlib.Data.List.Basic
import Mathlib.Logic.Hydra
import Mathlib.Order.WellFounded
import Mathlib.Data.Set.Finite.Basic
import Mathlib.Order.Preorder.Finite

/-!
# Search with a queue and without a visited set

`search` takes the first element off a queue, visits it and appends its
successors. An element is visited once for every path that leads to it, so the
search walks through the trees that unfold from the queue.

* **what is visited** — `run_mem`: the elements of the queue and everything
  reachable from them;
* **when it ends** — exactly if no infinite path of successors starts in the
  queue. One direction (`exists_run`) replaces an element of a multiset by its
  successors (`Relation.CutExpand`), the other (`run_none`) keeps the start of an
  infinite path in the queue. Over a finite set an infinite path is a cycle
  (`ends_of_acyclic`).
-/

namespace Tsshd.Worklist

variable {α σ : Type} (succ : α → List α)

/-- The search, for `fuel` rounds; `none` when the queue is not empty by then. -/
def search (visit : σ → α → σ) : Nat → List α → σ → Option σ
  | _, [], s => some s
  | 0, _ :: _, _ => none
  | fuel + 1, x :: queue, s => search visit fuel (queue ++ succ x) (visit s x)

/-- The elements in the order in which they are taken off the queue. -/
def run : Nat → List α → Option (List α)
  | _, [] => some []
  | 0, _ :: _ => none
  | fuel + 1, x :: queue => (run fuel (queue ++ succ x)).map (x :: ·)

variable {succ}

/-- The visits come one after the other, in that order. -/
theorem search_eq (visit : σ → α → σ) (fuel : Nat) (queue : List α) (s : σ) :
    search succ visit fuel queue s = (run succ fuel queue).map (·.foldl visit s) := by
  induction fuel generalizing queue s with
  | zero => cases queue <;> rfl
  | succ fuel ih =>
    cases queue with
    | nil => rfl
    | cons x queue =>
      rw [search, ih, run, Option.map_map]
      rfl

/-! ## What is visited -/

/-- `y` is a successor of `x`. -/
def Edge (succ : α → List α) (x y : α) : Prop := y ∈ succ x

theorem run_mem {fuel : Nat} {queue out : List α} (h : run succ fuel queue = some out) (y : α) :
    y ∈ out ↔ ∃ x ∈ queue, Relation.ReflTransGen (Edge succ) x y := by
  induction fuel generalizing queue out with
  | zero =>
    cases queue with
    | nil =>
      cases h
      simp
    | cons x queue => cases h
  | succ fuel ih =>
    cases queue with
    | nil =>
      cases h
      simp
    | cons x queue =>
      obtain ⟨rest, hrest, rfl⟩ := Option.map_eq_some_iff.mp h
      rw [List.mem_cons, ih hrest]
      constructor
      · rintro (rfl | ⟨z, hz, hreach⟩)
        · exact ⟨y, List.mem_cons_self, .refl⟩
        · rcases List.mem_append.mp hz with hz | hz
          · exact ⟨z, List.mem_cons_of_mem _ hz, hreach⟩
          · exact ⟨x, List.mem_cons_self, .head hz hreach⟩
      · rintro ⟨z, hz, hreach⟩
        rcases List.mem_cons.mp hz with rfl | hz
        · rcases hreach.cases_head with rfl | ⟨w, hw, hreach⟩
          · exact .inl rfl
          · exact .inr ⟨w, List.mem_append_right _ hw, hreach⟩
        · exact .inr ⟨z, List.mem_append_left _ hz, hreach⟩

/-! ## When it ends -/

/-- No infinite path of successors starts at `x`. -/
def Ends (succ : α → List α) (x : α) : Prop := Acc (fun y x => Edge succ x y) x

theorem Ends.next {x y : α} (h : Ends succ x) (hy : y ∈ succ x) : Ends succ y := h.inv hy

/-- The successor relation where paths end; it has no loops. -/
def Below (succ : α → List α) (y x : α) : Prop := Ends succ x ∧ Edge succ x y

theorem Ends.irrefl {x : α} (h : Ends succ x) : ¬ Edge succ x x := by
  induction h with
  | intro x _ ih => exact fun hx => ih x hx hx

instance : Std.Irrefl (Below succ) := ⟨fun _ h => h.1.irrefl h.2⟩

theorem Ends.acc_below {x : α} (h : Ends succ x) : Acc (Below succ) x := by
  induction h with
  | intro x _ ih => exact .intro x fun y hy => ih y hy.2

/-- A round takes an element out of the queue and puts smaller ones in. -/
theorem round_cutExpand {x : α} {queue : List α} (hx : Ends succ x) :
    Relation.CutExpand (Below succ) (↑(queue ++ succ x)) (↑(x :: queue)) := by
  refine ⟨↑(succ x), x, fun y hy => ⟨hx, Multiset.mem_coe.mp hy⟩, ?_⟩
  rw [← Multiset.coe_add, ← Multiset.cons_coe, ← Multiset.singleton_add, add_comm]
  rw [← add_assoc]

theorem exists_run {queue : List α} (h : ∀ x ∈ queue, Ends succ x) :
    ∃ fuel, (run succ fuel queue).isSome = true := by
  have hacc : Acc (Relation.CutExpand (Below succ)) (queue : Multiset α) :=
    Relation.acc_of_singleton fun x hx => (h x (by simpa using hx)).acc_below.cutExpand
  generalize hq : (queue : Multiset α) = q at hacc
  induction hacc generalizing queue with
  | intro q _ ih =>
    cases queue with
    | nil => exact ⟨0, rfl⟩
    | cons x queue =>
      have hx := h x List.mem_cons_self
      have hnext : ∀ y ∈ queue ++ succ x, Ends succ y := by
        intro y hy
        rcases List.mem_append.mp hy with hy | hy
        · exact h y (List.mem_cons_of_mem _ hy)
        · exact Ends.next hx hy
      obtain ⟨fuel, hfuel⟩ := ih _ (hq ▸ round_cutExpand hx) hnext rfl
      refine ⟨fuel + 1, ?_⟩
      rw [run, Option.isSome_map]
      exact hfuel

/-- The start of an infinite path, or a successor it goes on with, stays in the
queue. -/
theorem run_none {queue : List α} (h : ∃ x ∈ queue, ¬ Ends succ x) (fuel : Nat) :
    run succ fuel queue = none := by
  induction fuel generalizing queue with
  | zero =>
    obtain ⟨x, hx, -⟩ := h
    cases queue with
    | nil => cases hx
    | cons y queue => rfl
  | succ fuel ih =>
    obtain ⟨x, hx, hends⟩ := h
    cases queue with
    | nil => cases hx
    | cons y queue =>
      have hnext : ∃ z ∈ queue ++ succ y, ¬ Ends succ z := by
        rcases List.mem_cons.mp hx with rfl | hx
        · by_contra hall
          refine hends (.intro x fun z hz => ?_)
          by_contra hz'
          exact hall ⟨z, List.mem_append_right _ hz, hz'⟩
        · exact ⟨x, List.mem_append_left _ hx, hends⟩
      rw [run, ih hnext]
      rfl

/-! ## Finite successor relations -/

/-- Where finitely many elements are successors and none that is reachable from
`x` reaches itself, every path from `x` ends. -/
theorem ends_of_acyclic {x : α} (hfinite : {y | ∃ z, Edge succ z y}.Finite)
    (hacyclic : ∀ y, Relation.ReflTransGen (Edge succ) x y →
      ¬ Relation.TransGen (Edge succ) y y) : Ends succ x := by
  let Reached := {y // Relation.ReflTransGen (Edge succ) x y}
  let edge : Reached → Reached → Prop := fun y z => Edge succ y.1 z.1
  have hreached : {y | Relation.ReflTransGen (Edge succ) x y}.Finite := by
    refine (hfinite.insert x).subset fun y hy => ?_
    rcases hy.cases_tail with rfl | ⟨z, -, hz⟩
    · exact Set.mem_insert _ _
    · exact Set.mem_insert_of_mem _ ⟨z, hz⟩
  have : Finite Reached := hreached.to_subtype
  have hirrefl : Std.Irrefl (Relation.TransGen (Function.swap edge)) := by
    refine ⟨fun y hy => hacyclic y.1 y.2 ?_⟩
    have hcycle : Relation.TransGen edge y y := Relation.transGen_swap.mp hy
    exact hcycle.lift Subtype.val fun _ _ h => h
  have hwf : WellFounded (Relation.TransGen (Function.swap edge)) :=
    Finite.wellFounded_of_trans_of_irrefl _
  -- What is below a reached element is reached.
  have hall : ∀ y : Reached, Ends succ y.1 := by
    intro y
    induction y using hwf.induction with
    | _ y ih => exact .intro _ fun z hz => ih ⟨z, y.2.tail hz⟩ (.single hz)
  exact hall ⟨x, .refl⟩

theorem Ends.reach {x y : α} (h : Ends succ x) (hreach : Relation.ReflTransGen (Edge succ) x y) :
    Ends succ y := by
  induction hreach with
  | refl => exact h
  | tail _ hz ih => exact Ends.next ih hz

/-- A cycle that is reachable from `x` is an infinite path. -/
theorem not_ends_of_cycle {x y : α} (hreach : Relation.ReflTransGen (Edge succ) x y)
    (hcycle : Relation.TransGen (Edge succ) y y) : ¬ Ends succ x := by
  intro hx
  have hacc : Acc (Relation.TransGen (Function.swap (Edge succ))) y := (hx.reach hreach).transGen
  have hloop : Relation.TransGen (Function.swap (Edge succ)) y y :=
    Relation.transGen_swap.mpr hcycle
  clear hreach hcycle
  induction hacc with
  | intro y _ ih => exact ih y hloop hloop

end Tsshd.Worklist

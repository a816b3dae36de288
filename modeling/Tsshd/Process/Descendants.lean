import Tsshd.Core.Worklist
import Mathlib.Data.List.Basic

/-!
# The descendants of a process

`findAllDescendants` (comm.go) looks for everything below a process in a
snapshot of the process table. A snapshot is taken entry by entry while
processes come and go, and on some systems a process keeps the pid of a parent
that is long gone and whose pid was given away again, so the parent pids are
arbitrary.

The search keeps no record of the pids it has seen. It returns what is reachable
(`findLoop_eq`, `mem_findAllDescendants`), unless a descendant of the root is
its own descendant; then it goes round that cycle for ever.
-/

namespace Tsshd.Process

structure ProcInfo where
  pid : Int
  ppid : Int
  pgid : Int := 0
  name : String := ""
deriving DecidableEq, Repr

/-- The map from pids to entries. A range over it comes in any order: that of
`entries`. -/
structure ProcTable where
  entries : List ProcInfo
  nodup : (entries.map ProcInfo.pid).Nodup

/-- `procs[pid]`. -/
def ProcTable.get (procs : ProcTable) (pid : Int) : Option ProcInfo :=
  procs.entries.find? (·.pid = pid)

/-- `childrenMap[pid]`. -/
def ProcTable.children (procs : ProcTable) (pid : Int) : List Int :=
  (procs.entries.filter (·.ppid = pid)).map ProcInfo.pid

/-- The map that is returned. -/
abbrev Descendants := Int → Option ProcInfo

/-- The loop, for `fuel` rounds; `none` when the queue is not empty by then. -/
def findLoop (procs : ProcTable) : Nat → List Int → Descendants → Option Descendants
  | _, [], descendants => some descendants
  | 0, _ :: _, _ => none
  | fuel + 1, currPid :: queue, descendants =>
    match procs.get currPid with
    | some p =>
      findLoop procs fuel (queue ++ procs.children currPid)
        (Function.update descendants currPid (some p))
    | none => findLoop procs fuel queue descendants

def findAllDescendants (procs : ProcTable) (rootPid : Int) (fuel : Nat) : Option Descendants :=
  findLoop procs fuel (procs.children rootPid) fun _ => none

/-! ## What it is for -/

/-- The table has an entry for the child, and it names the parent. -/
def ProcTable.Child (procs : ProcTable) (parent child : Int) : Prop :=
  ∃ p ∈ procs.entries, p.ppid = parent ∧ p.pid = child

/-- One or more steps from parent to child. -/
def ProcTable.Descendant (procs : ProcTable) : Int → Int → Prop :=
  Relation.TransGen procs.Child

section

variable {procs : ProcTable} {parent child pid root : Int} {p : ProcInfo}

theorem mem_children : child ∈ procs.children parent ↔ procs.Child parent child := by
  simp only [ProcTable.children, ProcTable.Child, List.mem_map, List.mem_filter, decide_eq_true_eq,
    and_assoc]

/-- Pids are unique, so an entry is found under its pid. -/
theorem get_eq_some : procs.get pid = some p ↔ p ∈ procs.entries ∧ p.pid = pid := by
  constructor
  · intro h
    exact ⟨List.mem_of_find?_eq_some h, by simpa using List.find?_some h⟩
  · rintro ⟨hp, rfl⟩
    cases hget : procs.get p.pid with
    | none =>
      have hnone := List.find?_eq_none.mp hget p hp
      exact absurd (decide_eq_true rfl) hnone
    | some q =>
      have hq : q ∈ procs.entries := List.mem_of_find?_eq_some hget
      have hpid : q.pid = p.pid := by simpa using List.find?_some hget
      rw [List.inj_on_of_nodup_map procs.nodup hq hp hpid]

theorem get_of_child (h : procs.Child parent child) : ∃ p, procs.get child = some p := by
  obtain ⟨p, hp, -, hpid⟩ := h
  exact ⟨p, get_eq_some.mpr ⟨hp, hpid⟩⟩

/-! ## The search -/

/-- What a round appends to the queue. -/
def ProcTable.succ (procs : ProcTable) (pid : Int) : List Int :=
  match procs.get pid with
  | some _ => procs.children pid
  | none => []

/-- What a round does to the result. -/
def ProcTable.visit (procs : ProcTable) (descendants : Descendants) (pid : Int) : Descendants :=
  match procs.get pid with
  | some p => Function.update descendants pid (some p)
  | none => descendants

theorem findLoop_eq (procs : ProcTable) (fuel : Nat) (queue : List Int) (d : Descendants) :
    findLoop procs fuel queue d = Worklist.search procs.succ procs.visit fuel queue d := by
  induction fuel generalizing queue d with
  | zero => cases queue <;> rfl
  | succ fuel ih =>
    cases queue with
    | nil => rfl
    | cons pid queue =>
      cases hget : procs.get pid with
      | some p => simp only [findLoop, Worklist.search, ProcTable.succ, ProcTable.visit, hget, ih]
      | none =>
        simp only [findLoop, Worklist.search, ProcTable.succ, ProcTable.visit, hget, ih,
          List.append_nil]

theorem visit_apply (procs : ProcTable) (d : Descendants) (curr pid : Int) :
    procs.visit d curr pid = if pid = curr then (procs.get pid).or (d pid) else d pid := by
  unfold ProcTable.visit
  by_cases hpid : pid = curr
  · subst hpid
    cases procs.get pid with
    | some p => simp
    | none => simp
  · rw [if_neg hpid]
    cases procs.get curr with
    | some p => exact Function.update_of_ne hpid _ _
    | none => rfl

theorem foldl_visit (procs : ProcTable) (pids : List Int) (d : Descendants) (pid : Int) :
    pids.foldl procs.visit d pid = if pid ∈ pids then (procs.get pid).or (d pid) else d pid := by
  induction pids generalizing d with
  | nil => simp
  | cons curr pids ih =>
    have hagain : (procs.get pid).or ((procs.get pid).or (d pid)) =
        (procs.get pid).or (d pid) := by
      cases procs.get pid <;> rfl
    rw [List.foldl_cons, ih, visit_apply]
    by_cases hmem : pid ∈ pids
    · rw [if_pos hmem, if_pos (List.mem_cons_of_mem _ hmem)]
      by_cases hcurr : pid = curr
      · rw [if_pos hcurr, hagain]
      · rw [if_neg hcurr]
    · simp only [hmem, if_false, List.mem_cons, or_false]

theorem child_of_edge (h : Worklist.Edge procs.succ parent child) : procs.Child parent child := by
  rw [Worklist.Edge, ProcTable.succ] at h
  cases hget : procs.get parent with
  | some p =>
    rw [hget] at h
    exact mem_children.mp h
  | none =>
    rw [hget] at h
    cases h

theorem edge_of_child (hparent : ∃ p, procs.get parent = some p)
    (h : procs.Child parent child) : Worklist.Edge procs.succ parent child := by
  obtain ⟨p, hp⟩ := hparent
  rw [Worklist.Edge, ProcTable.succ, hp]
  exact mem_children.mpr h

/-- The search goes from an entry of the table to its descendants. -/
theorem reach_iff (hroot : ∃ p, procs.get root = some p) :
    Relation.ReflTransGen (Worklist.Edge procs.succ) root pid ↔
      Relation.ReflTransGen procs.Child root pid := by
  refine ⟨fun h => h.lift id fun _ _ => child_of_edge, fun h => ?_⟩
  induction h with
  | refl => exact .refl
  | @tail a b hreach hchild ih =>
    refine ih.tail (edge_of_child ?_ hchild)
    rcases hreach.cases_tail with rfl | ⟨_, -, hlast⟩
    · exact hroot
    · exact get_of_child hlast

theorem descendant_iff :
    procs.Descendant root pid ↔ ∃ child ∈ procs.children root,
      Relation.ReflTransGen (Worklist.Edge procs.succ) child pid := by
  rw [ProcTable.Descendant, Relation.TransGen.head'_iff]
  constructor
  · rintro ⟨child, hchild, hreach⟩
    exact ⟨child, mem_children.mpr hchild, (reach_iff (get_of_child hchild)).mpr hreach⟩
  · rintro ⟨child, hchild, hreach⟩
    have hchild := mem_children.mp hchild
    exact ⟨child, hchild, (reach_iff (get_of_child hchild)).mp hreach⟩

theorem get_of_descendant (h : procs.Descendant root pid) : ∃ p, procs.get pid = some p := by
  obtain ⟨_, -, hlast⟩ := Relation.TransGen.tail'_iff.mp h
  exact get_of_child hlast

theorem descendant_of_edges (h : Relation.TransGen (Worklist.Edge procs.succ) root pid) :
    procs.Descendant root pid := h.lift id fun _ _ => child_of_edge

/-- What is returned is what is reachable. -/
theorem mem_findAllDescendants {fuel : Nat} {d : Descendants}
    (h : findAllDescendants procs root fuel = some d) (pid : Int) (p : ProcInfo) :
    d pid = some p ↔ p ∈ procs.entries ∧ p.pid = pid ∧ procs.Descendant root pid := by
  rw [findAllDescendants, findLoop_eq, Worklist.search_eq] at h
  obtain ⟨out, hout, rfl⟩ := Option.map_eq_some_iff.mp h
  rw [foldl_visit, ← and_assoc, ← get_eq_some, descendant_iff, ← Worklist.run_mem hout]
  by_cases hmem : pid ∈ out
  · rw [if_pos hmem, Option.or_none]
    exact (and_iff_left hmem).symm
  · rw [if_neg hmem]
    exact iff_of_false (by simp) fun hp => hmem hp.2

/-- The targets of steps are entries of the table. -/
theorem finite_edges (procs : ProcTable) : {y | ∃ z, Worklist.Edge procs.succ z y}.Finite := by
  refine (List.finite_toSet (procs.entries.map ProcInfo.pid)).subset ?_
  rintro y ⟨z, hz⟩
  obtain ⟨p, hp, -, hpid⟩ := child_of_edge hz
  exact List.mem_map.mpr ⟨p, hp, hpid⟩

end

/-- A descendant that is its own descendant is queued again and again. -/
theorem findAllDescendants_cycle {procs : ProcTable} {rootPid pid : Int}
    (hpid : procs.Descendant rootPid pid) (hcycle : procs.Descendant pid pid) (fuel : Nat) :
    findAllDescendants procs rootPid fuel = none := by
  obtain ⟨child, hchild, hreach⟩ := descendant_iff.mp hpid
  have hround : Relation.TransGen (Worklist.Edge procs.succ) pid pid := by
    obtain ⟨next, hnext, hback⟩ := Relation.TransGen.head'_iff.mp hcycle
    exact .head' (edge_of_child (get_of_descendant hpid) hnext)
      ((reach_iff (get_of_child hnext)).mpr hback)
  rw [findAllDescendants, findLoop_eq, Worklist.search_eq,
    Worklist.run_none ⟨child, hchild, Worklist.not_ends_of_cycle hreach hround⟩]
  rfl

/-- **The descendant search.** The search ends and returns the entries that are
reachable from the root in one or more steps from parent to child, just if no
descendant of the root is its own descendant. -/
theorem findAllDescendants_exact (procs : ProcTable) (rootPid : Int) :
    (∃ fuel d, findAllDescendants procs rootPid fuel = some d ∧
      ∀ pid p, d pid = some p ↔
        p ∈ procs.entries ∧ p.pid = pid ∧ procs.Descendant rootPid pid) ↔
      ∀ pid, procs.Descendant rootPid pid → ¬ procs.Descendant pid pid := by
  constructor
  · rintro ⟨fuel, d, hreturn, -⟩ pid hpid hcycle
    rw [findAllDescendants_cycle hpid hcycle] at hreturn
    cases hreturn
  · intro hacyclic
    have hends : ∀ child ∈ procs.children rootPid, Worklist.Ends procs.succ child := by
      intro child hchild
      refine Worklist.ends_of_acyclic (finite_edges procs) fun pid hreach hcycle => ?_
      exact hacyclic pid (descendant_iff.mpr ⟨child, hchild, hreach⟩) (descendant_of_edges hcycle)
    obtain ⟨fuel, hfuel⟩ := Worklist.exists_run hends
    obtain ⟨out, hout⟩ := Option.isSome_iff_exists.mp hfuel
    have hreturn : findAllDescendants procs rootPid fuel =
        some (out.foldl procs.visit fun _ => none) := by
      rw [findAllDescendants, findLoop_eq, Worklist.search_eq, hout]
      rfl
    exact ⟨fuel, _, hreturn, mem_findAllDescendants hreturn⟩

/-- A shell with a child, and a grandchild. -/
def family : ProcTable where
  entries := [{ pid := 100, ppid := 50 }, { pid := 200, ppid := 100 }, { pid := 300, ppid := 200 }]
  nodup := by decide

theorem findAllDescendants_exact_family :
    (∀ pid, family.Descendant 100 pid → ¬ family.Descendant pid pid) ∧
    ∃ fuel d, findAllDescendants family 100 fuel = some d ∧
      ∀ pid p, d pid = some p ↔
        p ∈ family.entries ∧ p.pid = pid ∧ family.Descendant 100 pid := by
  -- Children have greater pids than their parents here.
  have hchild : ∀ a b, family.Child a b → a < b := by
    rintro _ _ ⟨p, hp, rfl, rfl⟩
    revert p
    decide
  have hlt : ∀ a b, family.Descendant a b → a < b := by
    intro a b h
    induction h with
    | single hlast => exact hchild _ _ hlast
    | tail _ hlast ih => exact ih.trans (hchild _ _ hlast)
  have hacyclic : ∀ pid, family.Descendant 100 pid → ¬ family.Descendant pid pid :=
    fun pid _ hcycle => absurd (hlt pid pid hcycle) (by simp)
  exact ⟨hacyclic, (findAllDescendants_exact family 100).mpr hacyclic⟩

/-- The parent of the shell has ended, and its pid was given to the shell's
grandchild. -/
def reused : ProcTable where
  entries := [{ pid := 100, ppid := 50 }, { pid := 200, ppid := 100 }, { pid := 50, ppid := 200 }]
  nodup := by decide

/-- The search goes round; no fuel is enough. -/
theorem findAllDescendants_reused : findAllDescendants reused 100 = fun _ => none := by
  have h200 : reused.Child 100 200 := ⟨{ pid := 200, ppid := 100 }, by decide, rfl, rfl⟩
  have h50 : reused.Child 200 50 := ⟨{ pid := 50, ppid := 200 }, by decide, rfl, rfl⟩
  have h100 : reused.Child 50 100 := ⟨{ pid := 100, ppid := 50 }, by decide, rfl, rfl⟩
  have hround : reused.Descendant 100 100 := .tail (.tail (.single h200) h50) h100
  exact funext (findAllDescendants_cycle hround hround)

end Tsshd.Process

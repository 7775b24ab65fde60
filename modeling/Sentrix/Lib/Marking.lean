import Mathlib.Logic.Function.Iterate
import Sentrix.Lib.SparseMerkle

/-!
Marking what a content-addressed store of trees has to keep. Rows name the rows below
them by digest. A walk from a root records the digests it passes and turns back at one
it has recorded before and where nothing is.
-/
namespace SparseMerkle
namespace Marking
open SparseMerkle.Tree List

/-- What a row says about what is below. -/
inductive Row (H : Type) where
  | leaf (value : H)
  | branch (left right : H)
  deriving DecidableEq

variable {K V H : Type}

section
variable [DecidableEq H] (empty : Nat → H) (rows : H → Option (Row H))

/-- The walk below a digest that has so many levels below it. -/
def mark : Nat → H → List H → List H
  | 0, h, live =>
    if h = empty 0 ∨ h ∈ live then live
    else match rows h with
      | some (.leaf value) => value :: h :: live
      | _ => h :: live
  | n + 1, h, live =>
    if h = empty (n + 1) ∨ h ∈ live then live
    else match rows h with
      | some (.leaf value) => value :: h :: live
      | some (.branch l r) => mark n r (mark n l (h :: live))
      | none => h :: live

def visit : List H × List (Nat × H) → List H × List (Nat × H)
  | (live, []) => (live, [])
  | (live, (n, h) :: todo) =>
    if h = empty n ∨ h ∈ live then (live, todo)
    else match rows h, n with
      | some (.leaf value), _ => (value :: h :: live, todo)
      | some (.branch l r), n + 1 => (h :: live, (n, l) :: (n, r) :: todo)
      | _, _ => (h :: live, todo)

theorem visit_cons (n : Nat) (h : H) (live : List H) (todo : List (Nat × H)) :
    visit empty rows (live, (n, h) :: todo) =
      if h = empty n ∨ h ∈ live then (live, todo)
      else match rows h, n with
        | some (.leaf value), _ => (value :: h :: live, todo)
        | some (.branch l r), n + 1 => (h :: live, (n, l) :: (n, r) :: todo)
        | _, _ => (h :: live, todo) := rfl

theorem mark_visits (n : Nat) (h : H) (live : List H) (todo : List (Nat × H)) :
    ∃ k, (visit empty rows)^[k] (live, (n, h) :: todo) = (mark empty rows n h live, todo) := by
  induction n generalizing h live todo with
  | zero =>
    refine ⟨1, ?_⟩
    rw [Function.iterate_one, visit_cons, mark]
    by_cases skip : h = empty 0 ∨ h ∈ live
    · rw [if_pos skip, if_pos skip]
    · rw [if_neg skip, if_neg skip]
      rcases rows h with _ | (_ | _) <;> rfl
  | succ n ih =>
    by_cases skip : h = empty (n + 1) ∨ h ∈ live
    · exact ⟨1, by rw [Function.iterate_one, visit_cons, mark, if_pos skip, if_pos skip]⟩
    rcases row : rows h with _ | (value | ⟨l, r⟩)
    · exact ⟨1, by simp only [Function.iterate_one, visit_cons, mark, if_neg skip, row]⟩
    · exact ⟨1, by simp only [Function.iterate_one, visit_cons, mark, if_neg skip, row]⟩
    · obtain ⟨i, left⟩ := ih l (h :: live) ((n, r) :: todo)
      obtain ⟨j, right⟩ := ih r (mark empty rows n l (h :: live)) todo
      refine ⟨j + i + 1, ?_⟩
      have first : visit empty rows (live, (n + 1, h) :: todo) =
          (h :: live, (n, l) :: (n, r) :: todo) := by
        simp only [visit_cons, if_neg skip, row]
      rw [Function.iterate_succ_apply, first, Function.iterate_add_apply, left, right]
      simp only [mark, if_neg skip, row]

end

section
variable (path : K → List Bool) (digest : Preimage K V H → H) (U : Set (Preimage K V H))

def rowOf : Preimage K V H → Row H
  | .branch l r => .branch l r
  | p => .leaf (digest p)

def Stored (rows : H → Option (Row H)) (n : Nat) (t : Tree K V) : Prop :=
  ∀ p ∈ nodes digest n t, rows (digest p) = some (rowOf digest p)

structure Known (n : Nat) (t : Tree K V) : Prop where
  placed : ∃ pre, Placed path n pre t
  solid : Solid t
  within : Within digest U n t

def Covered (live : List H) (todo : List (Nat × H)) (n : Nat) (t : Tree K V) : Prop :=
  t = .empty ∨ root digest n t ∈ live ∨ ∃ m, (m, root digest n t) ∈ todo

def below : Tree K V → List (Tree K V)
  | .branch l r => [l, r]
  | _ => []

/-- What was recorded stands for a tree, and the trees below it are covered. -/
def Closed (live : List H) (todo : List (Nat × H)) : Prop :=
  ∀ h ∈ live, ∃ n t, Known path digest U n t ∧ root digest n t = h ∧
    ∀ c ∈ below t, Covered digest live todo (n - 1) c

structure Walk (rows : H → Option (Row H)) (live : List H) (todo : List (Nat × H)) : Prop where
  closed : Closed path digest U live todo
  ready : ∀ n h, (n, h) ∈ todo → ∃ t, Known path digest U n t ∧ Stored digest rows n t ∧
    root digest n t = h

end

section
variable {path : K → List Bool} {digest : Preimage K V H → H} {U : Set (Preimage K V H)}
  {rows rows' : H → Option (Row H)} {live : List H} {todo : List (Nat × H)} {n m : Nat} {h : H}
  {t : Tree K V}

theorem absent_not_node (n : Nat) (t : Tree K V) : .absent ∉ nodes digest n t := by
  induction t generalizing n with
  | empty => exact nofun
  | leaf => simp [nodes]
  | branch _ _ ihl ihr => simp [nodes, ihl, ihr]

theorem Known.branch {l r : Tree K V} (known : Known path digest U n (.branch l r)) :
    ∃ j, n = j + 1 ∧ Known path digest U j l ∧ Known path digest U j r := by
  obtain ⟨⟨pre, positive, left, right⟩, ⟨solidL, solidR, -⟩, within⟩ := known
  obtain ⟨withinL, withinR⟩ := within.branch
  obtain ⟨j, rfl⟩ := Nat.exists_eq_add_one_of_ne_zero positive.ne'
  exact ⟨j, rfl, ⟨⟨_, left⟩, solidL, withinL⟩, ⟨_, right⟩, solidR, withinR⟩

/-- No tree with a leaf has the digest of an empty one, of whatever height. -/
theorem root_ne_emptyDigest (free : Set.InjOn digest U) (solid : Solid t)
    (within : Within digest U n t) (empties : ∀ p ∈ emptyPreimages digest m, p ∈ U)
    (some_leaf : t ≠ .empty) : root digest n t ≠ emptyDigest digest m := by
  induction t generalizing n m with
  | empty => exact absurd rfl some_leaf
  | leaf =>
    intro same
    have leaf := within.nodes _ mem_cons_self
    cases m with
    | zero => cases free leaf (empties _ mem_cons_self) same
    | succ => cases free leaf (empties _ mem_cons_self) same
  | branch l _ ihl ihr =>
    intro same
    have branch := within.nodes _ mem_cons_self
    obtain ⟨withinL, withinR⟩ := within.branch
    cases m with
    | zero => cases free branch (empties _ mem_cons_self) same
    | succ m =>
      obtain ⟨left, right⟩ := Preimage.branch.inj (free branch (empties _ mem_cons_self) same)
      have empties : ∀ p ∈ emptyPreimages digest m, p ∈ U :=
        fun p inside => empties p (mem_cons_of_mem _ inside)
      by_cases bare : l = .empty
      · exact ihr solid.2.1 withinR empties (fun both => solid.2.2 ⟨bare, both⟩) right
      · exact ihl solid.1 withinL empties bare left

theorem Closed.marked (free : Set.InjOn digest U) (closed : Closed path digest U live [])
    (known : Known path digest U n t) (covered : Covered digest live [] n t) :
    ∀ p ∈ nodes digest n t, digest p ∈ live := by
  induction t generalizing n with
  | empty => exact nofun
  | leaf =>
    rcases covered with none_left | inside | ⟨_, impossible⟩
    · cases none_left
    · intro p here
      cases List.mem_singleton.mp here
      exact inside
    · cases impossible
  | branch _ _ ihl ihr =>
    rcases covered with none_left | inside | ⟨_, impossible⟩
    · cases none_left
    · obtain ⟨j, rfl, knownL, knownR⟩ := known.branch
      -- another tree was recorded under this root; it has the same children
      obtain ⟨m, t', known', same, children⟩ := closed _ inside
      have here := known.within.nodes _ mem_cons_self
      cases t' with
      | empty =>
        exact absurd same.symm (root_ne_emptyDigest free known.solid known.within
          known'.within.empties nofun)
      | leaf => cases free (known'.within.nodes _ mem_cons_self) here same
      | branch =>
        obtain ⟨left, right⟩ := Preimage.branch.inj
          (free (known'.within.nodes _ mem_cons_self) here same)
        have child {c c' : Tree K V} (knownC : Known path digest U j c)
            (equal : root digest (m - 1) c' = root digest j c)
            (coveredC : Covered digest live [] (m - 1) c') : Covered digest live [] j c := by
          rcases coveredC with rfl | marked | ⟨_, impossible⟩
          · by_contra open_
            exact root_ne_emptyDigest free knownC.solid knownC.within known'.within.branch.1.empties
              (fun bare => open_ (.inl bare)) equal.symm
          · exact .inr (.inl (equal ▸ marked))
          · cases impossible
        have coveredL := child knownL left (children _ mem_cons_self)
        have coveredR := child knownR right (children _ (mem_cons_of_mem _ mem_cons_self))
        intro p among
        rcases List.mem_cons.mp among with rfl | deeper
        · exact inside
        · rcases List.mem_append.mp deeper with deeper | deeper
          · exact ihl knownL coveredL p deeper
          · exact ihr knownR coveredR p deeper
    · cases impossible

theorem Walk.grow (walk : Walk path digest U rows live todo)
    (more : ∀ n t, Known path digest U n t → Stored digest rows n t → Stored digest rows' n t) :
    Walk path digest U rows' live todo := by
  refine ⟨walk.closed, fun n h waiting => ?_⟩
  obtain ⟨t, known, stored, rfl⟩ := walk.ready n h waiting
  exact ⟨t, known, more n t known stored, rfl⟩

theorem Walk.push (walk : Walk path digest U rows live todo) (known : Known path digest U n t)
    (stored : Stored digest rows n t) :
    Walk path digest U rows live ((n, root digest n t) :: todo) := by
  constructor
  · intro h inside
    obtain ⟨m, t', known', same, children⟩ := walk.closed h inside
    refine ⟨m, t', known', same, fun c part => ?_⟩
    rcases children c part with bare | marked | ⟨k, waiting⟩
    · exact .inl bare
    · exact .inr (.inl marked)
    · exact .inr (.inr ⟨k, mem_cons_of_mem _ waiting⟩)
  · intro m h waiting
    rcases List.mem_cons.mp waiting with same | waiting
    · cases same
      exact ⟨t, known, stored, rfl⟩
    · exact walk.ready m h waiting

inductive Visited (digest : Preimage K V H → H) (live : List H) (n : Nat) (h : H)
    (todo : List (Nat × H)) : Tree K V → List H × List (Nat × H) → Prop where
  | skipped {t : Tree K V} (seen : h = emptyDigest digest n ∨ h ∈ live) :
      Visited digest live n h todo t (live, todo)
  | leaf {k : K} {v : V} : Visited digest live n h todo (.leaf k v) (h :: h :: live, todo)
  | branch {j : Nat} {l r : Tree K V} (level : n = j + 1) :
      Visited digest live n h todo (.branch l r)
        (h :: live, (j, root digest j l) :: (j, root digest j r) :: todo)

/-- A covered tree stays covered: what is taken off the list was recorded, or empty. -/
theorem Covered.visited {t' : Tree K V} {m : Nat} {out : List H × List (Nat × H)}
    (free : Set.InjOn digest U) (known : Known path digest U n t)
    (step : Visited digest live n (root digest n t) todo t out)
    (known' : Known path digest U m t')
    (covered : Covered digest live ((n, root digest n t) :: todo) m t') :
    Covered digest out.1 out.2 m t' := by
  rcases covered with bare | marked | ⟨k, waiting⟩
  · exact .inl bare
  · cases step with
    | skipped => exact .inr (.inl marked)
    | leaf => exact .inr (.inl (mem_cons_of_mem _ (mem_cons_of_mem _ marked)))
    | branch => exact .inr (.inl (mem_cons_of_mem _ marked))
  · rcases List.mem_cons.mp waiting with here | later
    · obtain ⟨rfl, same⟩ := Prod.mk.inj here
      cases step with
      | skipped seen =>
        rcases seen with nothing | seen
        · by_contra open_
          exact root_ne_emptyDigest free known'.solid known'.within known.within.empties
            (fun bare => open_ (.inl bare)) (same.trans nothing)
        · exact .inr (.inl (same ▸ seen))
      | leaf => exact .inr (.inl (same ▸ mem_cons_self))
      | branch => exact .inr (.inl (same ▸ mem_cons_self))
    · cases step with
      | skipped => exact .inr (.inr ⟨k, later⟩)
      | leaf => exact .inr (.inr ⟨k, later⟩)
      | branch => exact .inr (.inr ⟨k, mem_cons_of_mem _ (mem_cons_of_mem _ later)⟩)

theorem known_below {c : Tree K V} (known : Known path digest U n t) (part : c ∈ below t) :
    Known path digest U (n - 1) c := by
  cases t with
  | empty => cases part
  | leaf => cases part
  | branch =>
    obtain ⟨j, rfl, knownL, knownR⟩ := known.branch
    rcases List.mem_cons.mp part with rfl | part
    · exact knownL
    · cases List.mem_singleton.mp part
      exact knownR

theorem Closed.visited {out : List H × List (Nat × H)} (free : Set.InjOn digest U)
    (known : Known path digest U n t) (step : Visited digest live n (root digest n t) todo t out)
    (closed : Closed path digest U live ((n, root digest n t) :: todo)) :
    Closed path digest U out.1 out.2 := by
  have old : ∀ h ∈ live, ∃ n' t', Known path digest U n' t' ∧ root digest n' t' = h ∧
      ∀ c ∈ below t', Covered digest out.1 out.2 (n' - 1) c := by
    intro h inside
    obtain ⟨n', t', known', same, children⟩ := closed h inside
    exact ⟨n', t', known', same, fun c part =>
      (children c part).visited free known step (known_below known' part)⟩
  cases step with
  | skipped => exact old
  | leaf =>
    intro h inside
    rcases List.mem_cons.mp inside with rfl | inside
    · exact ⟨n, _, known, rfl, nofun⟩
    · rcases List.mem_cons.mp inside with rfl | inside
      · exact ⟨n, _, known, rfl, nofun⟩
      · exact old h inside
  | branch level =>
    subst level
    intro h inside
    rcases List.mem_cons.mp inside with rfl | inside
    · refine ⟨_, _, known, rfl, fun c part => .inr (.inr ?_)⟩
      rcases List.mem_cons.mp part with rfl | part
      · exact ⟨_, mem_cons_self⟩
      · cases List.mem_singleton.mp part
        exact ⟨_, mem_cons_of_mem _ mem_cons_self⟩
    · exact old h inside

variable [DecidableEq H]

theorem visited (known : Known path digest U n t) (stored : Stored digest rows n t) :
    Visited digest live n (root digest n t) todo t
      (visit (emptyDigest digest) rows (live, (n, root digest n t) :: todo)) := by
  rw [visit_cons]
  by_cases seen : root digest n t = emptyDigest digest n ∨ root digest n t ∈ live
  · rw [if_pos seen]
    exact .skipped seen
  · rw [if_neg seen]
    cases t with
    | empty => exact absurd (.inl rfl) seen
    | leaf =>
      have row := stored _ mem_cons_self
      simp only [root, row, rowOf]
      exact .leaf
    | branch =>
      obtain ⟨j, rfl, -, -⟩ := known.branch
      have row := stored _ mem_cons_self
      simp only [root, row, rowOf]
      exact .branch rfl

theorem Walk.visit (free : Set.InjOn digest U) (walk : Walk path digest U rows live todo) :
    Walk path digest U rows (visit (emptyDigest digest) rows (live, todo)).1
      (visit (emptyDigest digest) rows (live, todo)).2 := by
  cases todo with
  | nil => exact walk
  | cons first todo =>
    obtain ⟨n, h⟩ := first
    obtain ⟨t, known, stored, rfl⟩ := walk.ready n h mem_cons_self
    have step : Visited digest live n (root digest n t) todo t _ := visited known stored
    refine ⟨walk.closed.visited free known step, fun m h waiting => ?_⟩
    have later : ∀ m h, (m, h) ∈ todo → ∃ t, Known path digest U m t ∧ Stored digest rows m t ∧
        root digest m t = h :=
      fun m h waiting => walk.ready m h (mem_cons_of_mem _ waiting)
    generalize Marking.visit (emptyDigest digest) rows (live, (n, root digest n t) :: todo) = out
      at step waiting
    cases step with
    | skipped => exact later m h waiting
    | leaf => exact later m h waiting
    | branch level =>
      subst level
      rename_i j l r
      obtain ⟨_, same, knownL, knownR⟩ := known.branch
      cases same
      rcases List.mem_cons.mp waiting with here | waiting
      · cases here
        exact ⟨l, knownL, fun p part =>
          stored p (mem_cons_of_mem _ (mem_append_left _ part)), rfl⟩
      · rcases List.mem_cons.mp waiting with here | waiting
        · cases here
          exact ⟨r, knownR, fun p part =>
            stored p (mem_cons_of_mem _ (mem_append_right _ part)), rfl⟩
        · exact later m h waiting

theorem Covered.visit (free : Set.InjOn digest U) (walk : Walk path digest U rows live todo)
    (known : Known path digest U n t) (covered : Covered digest live todo n t) :
    Covered digest (visit (emptyDigest digest) rows (live, todo)).1
      (visit (emptyDigest digest) rows (live, todo)).2 n t := by
  cases todo with
  | nil => exact covered
  | cons first =>
    obtain ⟨m, h⟩ := first
    obtain ⟨s, known', stored, rfl⟩ := walk.ready m h mem_cons_self
    exact covered.visited free known' (Marking.visited known' stored) known

theorem Walk.mark (free : Set.InjOn digest U) (walk : Walk path digest U rows live [])
    (known : Known path digest U n t) (stored : Stored digest rows n t) :
    Walk path digest U rows (mark (emptyDigest digest) rows n (root digest n t) live) [] ∧
      Covered digest (mark (emptyDigest digest) rows n (root digest n t) live) [] n t ∧
      ∀ m s, Known path digest U m s → Covered digest live [] m s →
        Covered digest (mark (emptyDigest digest) rows n (root digest n t) live) [] m s := by
  have started := walk.push known stored
  obtain ⟨k, ran⟩ := mark_visits (emptyDigest digest) rows n (root digest n t) live []
  have steps (k : Nat) :
      Walk path digest U rows ((Marking.visit (emptyDigest digest) rows)^[k]
          (live, [(n, root digest n t)])).1
        ((Marking.visit (emptyDigest digest) rows)^[k] (live, [(n, root digest n t)])).2 ∧
      ∀ m s, Known path digest U m s → Covered digest live [(n, root digest n t)] m s →
        Covered digest ((Marking.visit (emptyDigest digest) rows)^[k]
            (live, [(n, root digest n t)])).1
          ((Marking.visit (emptyDigest digest) rows)^[k] (live, [(n, root digest n t)])).2 m s := by
    induction k with
    | zero => exact ⟨started, fun _ _ _ covered => covered⟩
    | succ _ ih =>
      rw [Function.iterate_succ_apply']
      exact ⟨ih.1.visit free, fun m s known covered => (ih.2 m s known covered).visit free ih.1 known⟩
  have ended := steps k
  rw [ran] at ended
  refine ⟨ended.1, ended.2 n t known (.inr (.inr ⟨n, mem_cons_self⟩)), ?_⟩
  intro m s known covered
  refine ended.2 m s known ?_
  rcases covered with bare | marked | ⟨_, impossible⟩
  · exact .inl bare
  · exact .inr (.inl marked)
  · cases impossible

end
end Marking
end SparseMerkle

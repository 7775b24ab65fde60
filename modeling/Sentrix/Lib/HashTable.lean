import Mathlib

/-!
Hash maps as lists of entries with distinct keys. The order of the list carries
no meaning: code that iterates a map takes an explicit `HashIter`, the order a
particular run happened to see, and nothing is known of it beyond being a
permutation of the entries.
-/
namespace HashTable
open List
variable {κ ν : Type}

abbrev Table (κ ν : Type) := AList (fun _ : κ => ν)

def Table.pairs (t : Table κ ν) : List (κ × ν) :=
  t.entries.map fun e => (e.1, e.2)

/-- The order in which one pass over a map visits its entries. -/
structure HashIter (α : Type) where
  visit : List α → List α
  perm : ∀ l, (visit l).Perm l

def HashIter.stored {α : Type} : HashIter α :=
  ⟨fun l => l, fun l => List.Perm.refl l⟩

theorem HashIter.mem_visit {α : Type} (order : HashIter α) {l : List α} {x : α} :
    x ∈ order.visit l ↔ x ∈ l :=
  (order.perm l).mem_iff

def Table.mapValues (f : κ → ν → ν) (t : Table κ ν) : Table κ ν where
  entries := t.entries.map fun e => ⟨e.1, f e.1 e.2⟩
  nodupKeys := by
    have keys : (t.entries.map fun e => (⟨e.1, f e.1 e.2⟩ : Sigma fun _ : κ => ν)).keys =
        t.entries.keys := by
      simp [List.keys, Function.comp_def]
    rw [List.NodupKeys, keys]
    exact t.nodupKeys

def sumOf (weight : κ → ν → Nat) (t : Table κ ν) : Nat :=
  (t.entries.map fun e => weight e.1 e.2).sum

variable [DecidableEq κ]

theorem mem_pairs {t : Table κ ν} {k : κ} {x : ν} :
    (k, x) ∈ t.pairs ↔ t.lookup k = some x := by
  rw [← Option.mem_def, AList.mem_lookup_iff]
  constructor
  · intro h
    obtain ⟨e, member, same⟩ := List.mem_map.mp h
    cases same
    exact member
  · intro h
    exact List.mem_map.mpr ⟨⟨k, x⟩, h, rfl⟩

theorem sumOf_insert (weight : κ → ν → Nat) (t : Table κ ν) (k : κ) (x : ν) :
    sumOf weight (t.insert k x) + ((t.lookup k).map (weight k)).getD 0 =
      sumOf weight t + weight k x := by
  have removed : ∀ l : List (Sigma fun _ : κ => ν),
      ((l.kerase k).map fun e => weight e.1 e.2).sum + ((l.dlookup k).map (weight k)).getD 0 =
        (l.map fun e => weight e.1 e.2).sum := by
    intro l
    induction l with
    | nil => rfl
    | cons e l ih =>
      obtain ⟨k', y⟩ := e
      by_cases same : k = k'
      · subst same
        simp [Nat.add_comm]
      · rw [kerase_cons_ne same, dlookup_cons_ne _ _ same, map_cons, map_cons,
          sum_cons, sum_cons, Nat.add_assoc, ih]
  have kept := removed t.entries
  unfold sumOf
  rw [AList.entries_insert, map_cons, sum_cons, AList.lookup]
  dsimp only
  omega

theorem sumOf_insert_absent (weight : κ → ν → Nat) {t : Table κ ν} {k : κ} (x : ν)
    (absent : t.lookup k = none) :
    sumOf weight (t.insert k x) = weight k x + sumOf weight t := by
  have grown := sumOf_insert weight t k x
  rw [absent] at grown
  simpa [Nat.add_comm] using grown

theorem sumOf_congr {weight weight' : κ → ν → Nat} {t : Table κ ν}
    (same : ∀ k x, t.lookup k = some x → weight k x = weight' k x) :
    sumOf weight t = sumOf weight' t := by
  unfold sumOf
  congr 1
  apply map_congr_left
  intro e member
  exact same e.1 e.2 (AList.mem_lookup_iff.mpr member)

private theorem entries_sum_le (weight : κ → ν → Nat) (w : κ → Nat)
    (l : List (Sigma fun _ : κ => ν)) (distinct : l.NodupKeys) (S : Finset κ)
    (bound : ∀ e ∈ l, weight e.1 e.2 ≤ w e.1)
    (support : ∀ e ∈ l, weight e.1 e.2 ≠ 0 → e.1 ∈ S) :
    (l.map fun e => weight e.1 e.2).sum ≤ ∑ k ∈ S, w k := by
  induction l generalizing S with
  | nil => simp
  | cons e l ih =>
    rw [nodupKeys_cons] at distinct
    obtain ⟨fresh, distinct⟩ := distinct
    have tail_bound : ∀ x ∈ l, weight x.1 x.2 ≤ w x.1 :=
      fun x hx => bound x (mem_cons_of_mem _ hx)
    have tail_support : ∀ x ∈ l, weight x.1 x.2 ≠ 0 → x.1 ∈ S :=
      fun x hx => support x (mem_cons_of_mem _ hx)
    rw [map_cons, sum_cons]
    by_cases zero : weight e.1 e.2 = 0
    · rw [zero, Nat.zero_add]
      exact ih distinct S tail_bound tail_support
    · have member : e.1 ∈ S := support e mem_cons_self zero
      rw [← Finset.add_sum_erase S w member]
      refine Nat.add_le_add (bound e mem_cons_self) (ih distinct _ tail_bound ?_)
      intro x hx nonzero
      refine Finset.mem_erase.mpr ⟨?_, tail_support x hx nonzero⟩
      intro same
      exact fresh (same ▸ mem_keys_of_mem hx)

/-- Each key contributes once, so a sum over a map is bounded by the sum over
any set that contains every key with a nonzero contribution. -/
theorem sumOf_le_sum {weight : κ → ν → Nat} {t : Table κ ν} {w : κ → Nat} {S : Finset κ}
    (bound : ∀ k x, t.lookup k = some x → weight k x ≤ w k)
    (support : ∀ k x, t.lookup k = some x → weight k x ≠ 0 → k ∈ S) :
    sumOf weight t ≤ ∑ k ∈ S, w k :=
  entries_sum_le weight w t.entries t.nodupKeys S
    (fun e member => bound e.1 e.2 (AList.mem_lookup_iff.mpr member))
    (fun e member => support e.1 e.2 (AList.mem_lookup_iff.mpr member))

theorem lookup_mapValues (f : κ → ν → ν) (t : Table κ ν) (k : κ) :
    (t.mapValues f).lookup k = (t.lookup k).map (f k) := by
  have mapped : ∀ l : List (Sigma fun _ : κ => ν),
      (l.map fun e => (⟨e.1, f e.1 e.2⟩ : Sigma fun _ : κ => ν)).dlookup k =
        (l.dlookup k).map (f k) := by
    intro l
    induction l with
    | nil => rfl
    | cons e l ih =>
      obtain ⟨k', y⟩ := e
      by_cases same : k = k'
      · subst same
        simp
      · rw [map_cons, dlookup_cons_ne _ _ same, dlookup_cons_ne _ _ same, ih]
  exact mapped t.entries

omit [DecidableEq κ] in
theorem sumOf_mapValues (weight : κ → ν → Nat) (f : κ → ν → ν) (t : Table κ ν) :
    sumOf weight (t.mapValues f) = sumOf (fun k x => weight k (f k x)) t := by
  unfold sumOf Table.mapValues
  rw [map_map]
  rfl

omit [DecidableEq κ] in
theorem sumOf_mono {weight weight' : κ → ν → Nat} (t : Table κ ν)
    (le : ∀ k x, weight k x ≤ weight' k x) : sumOf weight t ≤ sumOf weight' t :=
  sum_le_sum fun e _ => le e.1 e.2

def Table.eraseAll (t : Table κ ν) (keys : List κ) : Table κ ν :=
  keys.foldl (fun rows key => rows.erase key) t

theorem lookup_eraseAll (t : Table κ ν) (keys : List κ) (k : κ) :
    (t.eraseAll keys).lookup k = if k ∈ keys then none else t.lookup k := by
  unfold Table.eraseAll
  induction keys generalizing t with
  | nil => simp
  | cons key rest ih =>
    rw [foldl_cons, ih]
    by_cases later : k ∈ rest
    · simp [later]
    · by_cases here : k = key
      · subst here
        simp [later]
      · simp [later, here, AList.lookup_erase_ne here]

def Table.overlay (pending stored : Table κ ν) : Table κ ν :=
  pending.pairs.foldr (fun row rows => rows.insert row.1 row.2) stored

theorem lookup_overlay (pending stored : Table κ ν) (k : κ) :
    (pending.overlay stored).lookup k = (pending.lookup k).or (stored.lookup k) := by
  have rows : ∀ l : List (Sigma fun _ : κ => ν),
      ((l.map fun e => (e.1, e.2)).foldr (fun row (rows : Table κ ν) => rows.insert row.1 row.2)
        stored).lookup k = (l.dlookup k).or (stored.lookup k) := by
    intro l
    induction l with
    | nil => rfl
    | cons e l ih =>
      obtain ⟨k', y⟩ := e
      by_cases same : k = k'
      · subst same
        simp
      · rw [map_cons, foldr_cons, AList.lookup_insert_ne same, ih,
          dlookup_cons_ne _ _ same]
  exact rows pending.entries

/-- Entries put into the table where they belong; some belong nowhere. -/
def Table.collect {α : Type} (place : α → Option (κ × ν)) (l : List α) (t : Table κ ν) : Table κ ν :=
  l.foldl (fun t a => match place a with
    | some (k, x) => t.insert k x
    | none => t) t

theorem lookup_collect {α : Type} {place : α → Option (κ × ν)} {l : List α} {t : Table κ ν} {k : κ}
    {found : Option ν} (agree : ∀ a ∈ l, ∀ x, place a = some (k, x) → found = some x)
    (absent : (∀ a ∈ l, ∀ x, place a ≠ some (k, x)) → found = t.lookup k) :
    (t.collect place l).lookup k = found := by
  induction l generalizing t with
  | nil => exact (absent nofun).symm
  | cons a rest ih =>
    unfold Table.collect at ih ⊢
    rw [foldl_cons]
    refine ih (fun b inside => agree b (mem_cons_of_mem _ inside)) fun none_later => ?_
    rcases placed : place a with _ | ⟨k', x⟩
    · exact absent (List.forall_mem_cons.mpr ⟨fun x => by simp [placed], none_later⟩)
    · by_cases same : k = k'
      · subst same
        simp only [AList.lookup_insert]
        exact agree a mem_cons_self x placed
      · simp only [AList.lookup_insert_ne same]
        refine absent (List.forall_mem_cons.mpr ⟨fun y here => same ?_, none_later⟩)
        rw [placed] at here
        exact (congrArg Prod.fst (Option.some.inj here)).symm

section
variable {α : Type} (ok : κ → Bool) (key : α → κ) (value : α → Option ν)

def keyed (e : α) : Option (κ × ν) :=
  if ok (key e) then (value e).map (Prod.mk (key e)) else none

/-- Every entry has a place, and no two entries disagree about one. -/
def Consistent (l : List α) : Prop :=
  (∀ e ∈ l, ok (key e) = true ∧ (value e).isSome = true) ∧
    ∀ a ∈ l, ∀ b ∈ l, key a = key b → value a = value b

instance [DecidableEq ν] (l : List α) : Decidable (Consistent ok key value l) :=
  inferInstanceAs (Decidable (_ ∧ _))

def Arrived (t : Table κ ν) (l : List α) : Prop :=
  ∀ e ∈ l, (value e).isSome = true ∧ t.lookup (key e) = value e

variable {ok key value} {l : List α}

omit [DecidableEq κ] in
theorem keyed_eq_some {e : α} {k : κ} {x : ν} :
    keyed ok key value e = some (k, x) ↔ ok k = true ∧ key e = k ∧ value e = some x := by
  unfold keyed
  by_cases fine : ok (key e) = true
  · rw [if_pos fine, Option.map_eq_some_iff]
    constructor
    · rintro ⟨y, here, same⟩
      cases same
      exact ⟨fine, rfl, here⟩
    · rintro ⟨-, rfl, here⟩
      exact ⟨x, here, rfl⟩
  · rw [if_neg fine]
    exact ⟨nofun, fun ⟨fine', same, _⟩ => absurd (same ▸ fine') fine⟩

theorem arrived_collect_iff :
    Arrived key value ((∅ : Table κ ν).collect (keyed ok key value) l) l ↔
      Consistent ok key value l := by
  constructor
  · intro kept
    refine ⟨fun e inside => ⟨?_, (kept e inside).1⟩, fun a here b there same => ?_⟩
    · by_contra bad
      have missing : ((∅ : Table κ ν).collect (keyed ok key value) l).lookup (key e) = none :=
        lookup_collect (fun _ _ _ placed => absurd (keyed_eq_some.mp placed).1 bad) fun _ => rfl
      obtain ⟨some_value, found⟩ := kept e inside
      rw [← found, missing] at some_value
      cases some_value
    · rw [← (kept a here).2, same, (kept b there).2]
  · intro ⟨placed, agree⟩ e inside
    refine ⟨(placed e inside).2, lookup_collect (fun a here x found => ?_) fun none_here => ?_⟩
    · obtain ⟨-, same, held⟩ := keyed_eq_some.mp found
      rw [agree e inside a here same.symm, held]
    · obtain ⟨fine, some_value⟩ := placed e inside
      obtain ⟨x, held⟩ := Option.isSome_iff_exists.mp some_value
      exact absurd (keyed_eq_some.mpr ⟨fine, rfl, held⟩) (none_here e inside x)

end

end HashTable

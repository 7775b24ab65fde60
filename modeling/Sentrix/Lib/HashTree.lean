import Mathlib

/-!
Hash trees over texts. Neighbours are joined and hashed level by level, an odd last text
is joined with itself, and leaves are hashed exactly as inner nodes are.
-/
namespace HashTree
open List
variable {digest : String → String} {n : Nat}

theorem append_inj_of_length {a b c d : String} (same : a ++ b = c ++ d)
    (lengths : a.length = c.length) : a = c ∧ b = d := by
  have lists : a.toList ++ b.toList = c.toList ++ d.toList := by
    simpa using congrArg String.toList same
  obtain ⟨first, second⟩ := append_inj lists lengths
  exact ⟨String.toList_inj.mp first, String.toList_inj.mp second⟩

def joined : List String → List String
  | a :: b :: rest => (a ++ b) :: joined rest
  | [a] => [a ++ a]
  | [] => []

theorem length_joined (texts : List String) : (joined texts).length = (texts.length + 1) / 2 := by
  induction texts using joined.induct with
  | case1 _ _ _ ih =>
    simp only [joined, length_cons, ih]
    omega
  | case2 => simp [joined]
  | case3 => simp [joined]

theorem mem_joined {texts : List String} {text : String} (mem : text ∈ joined texts) :
    ∃ a ∈ texts, ∃ b ∈ texts, text = a ++ b := by
  induction texts using joined.induct with
  | case1 a b _ ih =>
    simp only [joined, mem_cons] at mem
    rcases mem with rfl | deeper
    · exact ⟨a, by simp, b, by simp, rfl⟩
    · obtain ⟨c, inC, d, inD, split⟩ := ih deeper
      exact ⟨c, by simp [inC], d, by simp [inD], split⟩
  | case2 => simp_all [joined]
  | case3 => simp [joined] at mem

theorem joined_inj_of_lengths {texts others : List String}
    (lengths : texts.map String.length = others.map String.length)
    (same : joined texts = joined others) : texts = others := by
  induction texts using joined.induct generalizing others with
  | case1 _ _ _ ih =>
    match others, lengths with
    | c :: d :: rest', lengths =>
      simp only [map_cons, List.cons.injEq] at lengths
      simp only [joined, List.cons.injEq] at same
      obtain ⟨rfl, rfl⟩ := append_inj_of_length same.1 lengths.1
      rw [ih lengths.2.2 same.2]
    | [c], lengths => simp at lengths
  | case2 =>
    match others, lengths with
    | c :: d :: rest', lengths => simp at lengths
    | [c], lengths =>
      simp only [map_cons, List.cons.injEq] at lengths
      simp only [joined, List.cons.injEq] at same
      rw [(append_inj_of_length same.1 lengths.1).1]
  | case3 => simpa using lengths.symm

/-- Pairwise different texts of length `n`. -/
structure Distinct (n : Nat) (texts : List String) : Prop where
  length_eq : ∀ text ∈ texts, text.length = n
  nodup : texts.Nodup

theorem Distinct.pair_inj {texts others : List String} (lengths : ∀ text ∈ texts, text.length = n)
    (lengths' : ∀ text ∈ others, text.length = n) {a b c d : String} (inA : a ∈ texts)
    (inC : c ∈ others) (same : a ++ b = c ++ d) : a = c ∧ b = d :=
  append_inj_of_length same ((lengths a inA).trans (lengths' c inC).symm)

/-- An odd list and its padding join alike; without repetitions there is no padding to confuse. -/
theorem length_eq_of_joined {texts others : List String} (left : Distinct n texts)
    (right : Distinct n others) (same : joined texts = joined others) :
    texts.length = others.length := by
  induction texts using joined.induct generalizing others with
  | case1 _ _ rest ih =>
    obtain ⟨lengths, distinct⟩ := left
    obtain ⟨lengths', distinct'⟩ := right
    match others with
    | c :: d :: rest' =>
      simp only [joined, List.cons.injEq] at same
      have tail : rest.length = rest'.length := by
        apply ih ⟨fun t mem => lengths t (by simp [mem]), ?_⟩
          ⟨fun t mem => lengths' t (by simp [mem]), ?_⟩ same.2
        · exact (List.nodup_cons.mp (List.nodup_cons.mp distinct).2).2
        · exact (List.nodup_cons.mp (List.nodup_cons.mp distinct').2).2
      simp [tail]
    | [c] =>
      simp only [joined, List.cons.injEq] at same
      have pair := Distinct.pair_inj lengths lengths' (by simp) (by simp) same.1
      simp [pair.1, pair.2] at distinct
    | [] => simp [joined] at same
  | case2 =>
    obtain ⟨lengths, -⟩ := left
    obtain ⟨lengths', distinct'⟩ := right
    match others with
    | c :: d :: rest' =>
      simp only [joined, List.cons.injEq] at same
      have pair := Distinct.pair_inj lengths lengths' (by simp) (by simp) same.1
      simp [← pair.1, ← pair.2] at distinct'
    | [c] => rfl
    | [] => simp [joined] at same
  | case3 =>
    match others with
    | c :: d :: rest' => simp [joined] at same
    | [c] => simp [joined] at same
    | [] => rfl

theorem joined_inj_of_distinct {texts others : List String} (left : Distinct n texts)
    (right : Distinct n others) (same : joined texts = joined others) : texts = others := by
  apply joined_inj_of_lengths ?_ same
  rw [map_congr_left left.length_eq, map_congr_left right.length_eq]
  simp [length_eq_of_joined left right same]

theorem joined_nodup {texts : List String} (distinct : Distinct n texts) :
    (joined texts).Nodup := by
  induction texts using joined.induct with
  | case1 _ _ rest ih =>
    obtain ⟨lengths, nodup⟩ := distinct
    have rest_distinct : Distinct n rest := by
      constructor
      · intro t mem
        exact lengths t (by simp [mem])
      · exact (List.nodup_cons.mp (List.nodup_cons.mp nodup).2).2
    simp only [joined, nodup_cons]
    refine ⟨?_, ih rest_distinct⟩
    intro mem
    obtain ⟨c, inC, d, inD, same⟩ := mem_joined mem
    have pair := Distinct.pair_inj lengths rest_distinct.length_eq (by simp) inC same
    simp [pair.1, inC] at nodup
  | case2 => simp [joined]
  | case3 => simp [joined]

def CollisionFree (digest : String → String) (texts : List String) : Prop :=
  ∀ s ∈ texts, ∀ t ∈ texts, digest s = digest t → s = t

instance (digest : String → String) (texts : List String) :
    Decidable (CollisionFree digest texts) :=
  inferInstanceAs (Decidable (∀ s ∈ texts, ∀ t ∈ texts, _))

theorem CollisionFree.mono {texts more : List String} (free : CollisionFree digest more)
    (sub : texts ⊆ more) : CollisionFree digest texts :=
  fun s inS t inT => free s (sub inS) t (sub inT)

theorem CollisionFree.map_inj {texts others : List String}
    (free : CollisionFree digest (texts ++ others))
    (same : texts.map digest = others.map digest) : texts = others := by
  induction texts generalizing others with
  | nil => simpa using same.symm
  | cons text rest ih =>
    cases others with
    | nil => simp at same
    | cons other rest' =>
      simp only [map_cons, List.cons.injEq] at same
      have head : text = other := free text (by simp) other (by simp) same.1
      have tail : rest = rest' := by
        apply ih (free.mono ?_) same.2
        intro t mem
        simp only [mem_append, mem_cons] at mem ⊢
        tauto
      rw [head, tail]

def level (digest : String → String) (texts : List String) : List String :=
  (joined texts).map digest

theorem length_level (texts : List String) :
    (level digest texts).length = (texts.length + 1) / 2 := by
  simp [level, length_joined]

/-- The loop up the tree; `fuel` bounds the number of levels. -/
def climb (digest : String → String) : Nat → List String → List String
  | 0, texts => texts
  | fuel + 1, texts => if texts.length ≤ 1 then texts else climb digest fuel (level digest texts)

def hashed (digest : String → String) : Nat → List String → List String
  | 0, _ => []
  | fuel + 1, texts =>
    if texts.length ≤ 1 then [] else joined texts ++ hashed digest fuel (level digest texts)

/-- A text hashed by the loop starts with a leaf or with a digest. -/
theorem mem_hashed {fuel : Nat} {texts : List String} {s : String}
    (mem : s ∈ hashed digest fuel texts) :
    ∃ a rest, s = a ++ rest ∧ (a ∈ texts ∨ ∃ t, a = digest t) := by
  induction fuel generalizing texts with
  | zero => simp [hashed] at mem
  | succ _ ih =>
    by_cases short : texts.length ≤ 1
    · simp [hashed, short] at mem
    simp only [hashed, short, if_false, mem_append] at mem
    rcases mem with here | above
    · obtain ⟨a, inA, b, -, split⟩ := mem_joined here
      exact ⟨a, b, split, .inl inA⟩
    · obtain ⟨a, rest, split, start⟩ := ih above
      refine ⟨a, rest, split, .inr ?_⟩
      rcases start with leaf | formed
      · obtain ⟨t, -, formed⟩ := List.mem_map.mp leaf
        exact ⟨t, formed.symm⟩
      · exact formed

/-- `height` levels up, whatever their width. -/
def rise (digest : String → String) (height : Nat) (texts : List String) : List String :=
  (level digest)^[height] texts

theorem rise_succ (height : Nat) (texts : List String) :
    rise digest (height + 1) texts = level digest (rise digest height texts) :=
  Function.iterate_succ_apply' _ _ _

theorem rise_add (height more : Nat) (texts : List String) :
    rise digest (height + more) texts = rise digest height (rise digest more texts) :=
  Function.iterate_add_apply _ _ _ _

theorem rise_nil (height : Nat) : rise digest height [] = [] := by
  induction height with
  | zero => rfl
  | succ _ ih => simp [rise_succ, ih, level, joined]

theorem singleton_of_short {texts : List String} (some_text : texts ≠ [])
    (short : texts.length ≤ 1) : ∃ root, texts = [root] := by
  apply List.length_eq_one_iff.mp
  have := List.length_pos_iff.mpr some_text
  omega

/-- The loop ends on one text after some number of levels, each of them hashed. -/
theorem climb_eq_rise (digest : String → String) {fuel : Nat} {texts : List String}
    (enough : texts.length ≤ fuel + 1) (some_text : texts ≠ []) :
    ∃ height root, climb digest fuel texts = [root] ∧ rise digest height texts = [root] ∧
      ∀ k < height, joined (rise digest k texts) ⊆ hashed digest fuel texts := by
  induction fuel generalizing texts with
  | zero =>
    obtain ⟨root, rfl⟩ := singleton_of_short some_text enough
    exact ⟨0, root, rfl, rfl, by simp⟩
  | succ _ ih =>
    by_cases short : texts.length ≤ 1
    · obtain ⟨root, rfl⟩ := singleton_of_short some_text short
      exact ⟨0, root, by simp [climb], rfl, by simp⟩
    · have width : (level digest texts).length = (texts.length + 1) / 2 := length_level texts
      have nonempty : level digest texts ≠ [] := by
        apply List.length_pos_iff.mp
        omega
      obtain ⟨height, root, climbed, risen, sub⟩ := ih (by omega) nonempty
      refine ⟨height + 1, root, by simp [climb, short, climbed], risen, ?_⟩
      intro k below
      simp only [hashed, short, if_false]
      cases k with
      | zero => exact subset_append_left _ _
      | succ k => exact List.Subset.trans (sub k (by omega)) (subset_append_right _ _)

section binding
variable {texts others : List String} {fuel fuel' height : Nat}

theorem length_of_mem_level (width : ∀ s, (digest s).length = n) {text : String}
    (mem : text ∈ level digest texts) : text.length = n := by
  obtain ⟨s, -, rfl⟩ := List.mem_map.mp mem
  exact width s

theorem rise_distinct (width : ∀ s, (digest s).length = n) (distinct : Distinct n texts)
    (free : ∀ k < height, CollisionFree digest (joined (rise digest k texts))) :
    Distinct n (rise digest height texts) := by
  induction height with
  | zero => exact distinct
  | succ height ih =>
    have below := ih fun k lower => free k (by omega)
    rw [rise_succ]
    constructor
    · exact fun text mem => length_of_mem_level width mem
    · exact List.Nodup.map_on (free height (by omega)) (joined_nodup below)

theorem rise_inj (width : ∀ s, (digest s).length = n) (left : Distinct n texts)
    (right : Distinct n others)
    (free : ∀ k < height, CollisionFree digest
      (joined (rise digest k texts) ++ joined (rise digest k others)))
    (same : rise digest height texts = rise digest height others) : texts = others := by
  induction height with
  | zero => exact same
  | succ height ih =>
    apply ih fun k lower => free k (by omega)
    rw [rise_succ, rise_succ] at same
    have freeL : ∀ k < height, CollisionFree digest (joined (rise digest k texts)) :=
      fun k lower => (free k (by omega)).mono (subset_append_left _ _)
    have freeR : ∀ k < height, CollisionFree digest (joined (rise digest k others)) :=
      fun k lower => (free k (by omega)).mono (subset_append_right _ _)
    exact joined_inj_of_distinct (rise_distinct width left freeL) (rise_distinct width right freeR)
      ((free height (by omega)).map_inj same)

/-- The texts of a tree are leaves for another one: none of them is a digest formed there. -/
def Apart (digest : String → String) (texts inner : List String) : Prop :=
  ∀ text ∈ texts, ∀ s ∈ inner, digest s ≠ text

instance (digest : String → String) (texts inner : List String) :
    Decidable (Apart digest texts inner) :=
  inferInstanceAs (Decidable (∀ text ∈ texts, ∀ s ∈ inner, _))

/-- The lower of two trees with one top would start at a level of the higher one. -/
theorem rise_binds {more : Nat} {root : String} {inner : List String}
    (width : ∀ s, (digest s).length = n) (left : Distinct n texts) (right : Distinct n others)
    (free : CollisionFree digest inner)
    (within : ∀ k < height, joined (rise digest k texts) ⊆ inner)
    (within' : ∀ k < height + more, joined (rise digest k others) ⊆ inner)
    (apart : ∀ k < height + more, Apart digest texts (joined (rise digest k others)))
    (top : rise digest height texts = [root]) (top' : rise digest (height + more) others = [root]) :
    texts = others := by
  have lifted : Distinct n (rise digest more others) :=
    rise_distinct width right fun k lower => free.mono (within' k (by omega))
  have start : texts = rise digest more others := by
    apply rise_inj width left lifted ?_ (by rw [top, ← rise_add, top'])
    intro k lower
    apply free.mono (List.append_subset.mpr ⟨within k lower, ?_⟩)
    rw [← rise_add]
    exact within' _ (by omega)
  cases more with
  | zero => exact start
  | succ more =>
    -- a text of the lower tree would be a digest formed in the higher one
    exfalso
    rw [rise_succ] at start
    cases found : texts with
    | nil =>
      rw [found, rise_nil] at top
      cases top
    | cons text =>
      have mem : text ∈ level digest (rise digest more others) := by
        rw [← start, found]
        exact mem_cons_self
      obtain ⟨s, inner_s, formed⟩ := List.mem_map.mp mem
      exact apart more (by omega) text (by simp [found]) s inner_s formed

theorem climb_inj_of_lengths (width : ∀ s, (digest s).length = n)
    (lengths : texts.map String.length = others.map String.length)
    (free : CollisionFree digest (hashed digest fuel texts ++ hashed digest fuel others))
    (same : climb digest fuel texts = climb digest fuel others) : texts = others := by
  induction fuel generalizing texts others with
  | zero => exact same
  | succ _ ih =>
    have count : texts.length = others.length := by simpa using congrArg List.length lengths
    by_cases short : texts.length ≤ 1
    · simpa [climb, short, count ▸ short] using same
    · have short' : ¬ others.length ≤ 1 := count ▸ short
      simp only [climb, hashed, short, short', if_false] at same free
      -- one level up every text is a digest, so the lengths agree again
      have above : level digest texts = level digest others := by
        apply ih ?_ (free.mono ?_) same
        · rw [map_congr_left fun _ => length_of_mem_level width,
            map_congr_left fun _ => length_of_mem_level width]
          simp [length_level, count]
        · intro t mem
          simp only [mem_append] at mem ⊢
          tauto
      apply joined_inj_of_lengths lengths
      apply CollisionFree.map_inj (free.mono ?_) above
      intro t mem
      simp only [mem_append] at mem ⊢
      tauto

theorem climb_binds (width : ∀ s, (digest s).length = n) (left : Distinct n texts)
    (right : Distinct n others) (some_text : texts ≠ []) (some_other : others ≠ [])
    (enough : texts.length ≤ fuel + 1) (enough' : others.length ≤ fuel' + 1)
    (free : CollisionFree digest (hashed digest fuel texts ++ hashed digest fuel' others))
    (apart : Apart digest texts (hashed digest fuel' others))
    (apart' : Apart digest others (hashed digest fuel texts))
    (same : climb digest fuel texts = climb digest fuel' others) : texts = others := by
  obtain ⟨height, root, climbed, top, within⟩ := climb_eq_rise digest enough some_text
  obtain ⟨height', root', climbed', top', within'⟩ := climb_eq_rise digest enough' some_other
  obtain rfl : root = root' := by simpa [climbed, climbed'] using same
  have sub := fun k lower =>
    List.Subset.trans (within k lower) (subset_append_left _ (hashed digest fuel' others))
  have sub' := fun k lower =>
    List.Subset.trans (within' k lower) (subset_append_right (hashed digest fuel texts) _)
  rcases Nat.le_total height height' with lower | higher
  · obtain ⟨more, rfl⟩ := Nat.exists_eq_add_of_le lower
    exact rise_binds width left right free sub sub'
      (fun k below text mem s inner => apart text mem s (within' k below inner)) top top'
  · obtain ⟨more, rfl⟩ := Nat.exists_eq_add_of_le higher
    exact (rise_binds width right left free sub' sub
      (fun k below text mem s inner => apart' text mem s (within k below inner)) top' top).symm

theorem climb_formed (digest : String → String) (wide : 2 ≤ texts.length)
    (enough : texts.length ≤ fuel + 1) :
    ∃ height, ∃ s ∈ joined (rise digest height texts), s ∈ hashed digest fuel texts ∧
      climb digest fuel texts = [digest s] := by
  obtain ⟨height, root, climbed, top, within⟩ := climb_eq_rise digest enough
    (List.length_pos_iff.mp (by omega))
  cases height with
  | zero => simp [show texts = [root] from top] at wide
  | succ height =>
    rw [rise_succ] at top
    have mem : root ∈ level digest (rise digest height texts) := by simp [top]
    obtain ⟨s, inner, rfl⟩ := List.mem_map.mp mem
    exact ⟨height, s, inner, within height (by omega) inner, climbed⟩

theorem climb_top (width : ∀ s, (digest s).length = n) (lengths : ∀ text ∈ texts, text.length = n)
    (wide : 2 ≤ texts.length) (enough : texts.length ≤ fuel + 1) :
    ∃ s ∈ hashed digest fuel texts, climb digest fuel texts = [digest s] ∧
      s.length = n + n := by
  obtain ⟨height, s, inner, within, climbed⟩ := climb_formed digest wide enough
  obtain ⟨a, inA, b, inB, rfl⟩ := mem_joined inner
  have length_eq : ∀ text ∈ rise digest height texts, text.length = n := by
    cases height with
    | zero => exact lengths
    | succ =>
      intro text mem
      rw [rise_succ] at mem
      exact length_of_mem_level width mem
  refine ⟨_, within, climbed, ?_⟩
  rw [String.length_append, length_eq a inA, length_eq b inB]

end binding

end HashTree

import Mathlib

/-!
# Merkle trees with promoted odd nodes

A layer is hashed pairwise from the left; a last node without a partner is
moved up unchanged.  A proof for a set of leaves lists, layer by layer and
from the left, the siblings that cannot be computed from the nodes already
known.  Recomputing climbs the partially known layers and consumes that list.

The node hash is an arbitrary binary function.  Completeness needs nothing of
it; soundness needs that no pair hashed while recomputing collides with a pair
of the honest tree.
-/

namespace BeeEngine.Merkle

variable {H : Type*} (node : H → H → H)

/-! ## Trees -/

def parents : List H → List H
  | [] => []
  | [a] => [a]
  | a :: b :: rest => node a b :: parents rest

/-- The layer `k` steps above. -/
def ascend : ℕ → List H → List H
  | 0, layer => layer
  | k + 1, layer => ascend k (parents node layer)

/-- A layer with `n` nodes is a single node after `n` steps, since a single
node is its own parent. -/
def root (leaves : List H) : Option H := (ascend node leaves.length leaves).head?

@[simp] theorem length_parents (layer : List H) :
    (parents node layer).length = (layer.length + 1) / 2 := by
  induction layer using parents.induct with
  | case1 => simp [parents]
  | case2 a => simp [parents]
  | case3 a b rest ih =>
      simp only [parents, List.length_cons, ih]
      omega

theorem length_ascend (k : ℕ) (layer : List H) (hpos : 0 < layer.length)
    (hk : layer.length ≤ k + 1) : (ascend node k layer).length = 1 := by
  induction k generalizing layer with
  | zero =>
      rw [ascend]
      omega
  | succ k ih =>
      rw [ascend]
      apply ih
      · rw [length_parents]
        omega
      · rw [length_parents]
        omega

theorem ascend_eq_singleton {k : ℕ} {layer : List H} (hpos : 0 < layer.length)
    (hk : layer.length ≤ k + 1) : ∃ r, ascend node k layer = [r] :=
  List.length_eq_one_iff.mp (length_ascend node k layer hpos hk)

theorem root_eq_some_iff {leaves : List H} {r : H} :
    root node leaves = some r ↔ ascend node leaves.length leaves = [r] := by
  rw [root]
  constructor
  · intro h
    cases leaves with
    | nil => cases h
    | cons a rest =>
        have hpos : 0 < (a :: rest).length := Nat.zero_lt_succ rest.length
        obtain ⟨r', hr'⟩ := ascend_eq_singleton node hpos (Nat.le_succ _)
        rw [hr'] at h ⊢
        rw [Option.some.inj h]
  · intro h
    rw [h]
    rfl

theorem exists_root {leaves : List H} (hpos : 0 < leaves.length) :
    ∃ r, root node leaves = some r := by
  obtain ⟨r, hr⟩ := ascend_eq_singleton node hpos (Nat.le_succ leaves.length)
  exact ⟨r, (root_eq_some_iff node).mpr hr⟩

/-! ## Proofs -/

/-- The nodes of a layer that a mask selects. -/
def known (mask : List Bool) (layer : List H) : List (Option H) :=
  List.zipWith (fun m a ↦ if m then some a else none) mask layer

@[simp] theorem known_cons (m : Bool) (mask : List Bool) (a : H) (layer : List H) :
    known (m :: mask) (a :: layer) = (if m then some a else none) :: known mask layer := rfl

def parentsMask : List Bool → List Bool
  | [] => []
  | [m] => [m]
  | m :: n :: rest => (m || n) :: parentsMask rest

/-- The siblings of selected nodes that are not selected themselves. -/
def siblings : List Bool → List H → List H
  | true :: false :: mask, _ :: b :: layer => b :: siblings mask layer
  | false :: true :: mask, a :: _ :: layer => a :: siblings mask layer
  | _ :: _ :: mask, _ :: _ :: layer => siblings mask layer
  | _, _ => []

def proof : ℕ → List Bool → List H → List H
  | 0, _, _ => []
  | k + 1, mask, layer => siblings mask layer ++ proof k (parentsMask mask) (parents node layer)

/-- The two children of a node with a known child; a missing one is the next
hash of the proof. -/
def children : Option H → Option H → List H → Option (Option (H × H) × List H)
  | none, none, hashes => some (none, hashes)
  | some a, some b, hashes => some (some (a, b), hashes)
  | some a, none, b :: hashes => some (some (a, b), hashes)
  | none, some b, a :: hashes => some (some (a, b), hashes)
  | _, _, [] => none

def climb : List (Option H) → List H → Option (List (Option H) × List H)
  | [], hashes => some ([], hashes)
  | [x], hashes => some ([x], hashes)
  | x :: y :: rest, hashes =>
      match children x y hashes with
      | none => none
      | some (pair, hashes) =>
          match climb rest hashes with
          | none => none
          | some (up, hashes) => some (pair.map (fun p ↦ node p.1 p.2) :: up, hashes)

def climbs : ℕ → List (Option H) → List H → Option (List (Option H))
  | 0, layer, _ => some layer
  | k + 1, layer, hashes =>
      match climb node layer hashes with
      | none => none
      | some (up, hashes) => climbs k up hashes

/-- The bottom layer of a tree with `n` leaves of which some are given. -/
def place (n : ℕ) (given : List (ℕ × H)) : List (Option H) :=
  (List.range n).map fun i ↦ given.lookup i

/-- The root of a tree with `n` leaves, from some of its leaves and the hashes
of a proof. -/
def recompute (n : ℕ) (given : List (ℕ × H)) (hashes : List H) : Option H :=
  if given.all fun p ↦ decide (p.1 < n) then
    match climbs node n (place n given) hashes with
    | some [some r] => some r
    | _ => none
  else none

/-! ## Completeness -/

@[simp] theorem length_parentsMask (mask : List Bool) :
    (parentsMask mask).length = (mask.length + 1) / 2 := by
  induction mask using parentsMask.induct with
  | case1 => simp [parentsMask]
  | case2 m => simp [parentsMask]
  | case3 m n rest ih =>
      simp only [parentsMask, List.length_cons, ih]
      omega

theorem mem_parentsMask {mask : List Bool} (h : true ∈ mask) : true ∈ parentsMask mask := by
  induction mask using parentsMask.induct with
  | case1 => exact h
  | case2 m => exact h
  | case3 m n rest ih =>
      rw [parentsMask, List.mem_cons]
      rcases List.mem_cons.mp h with rfl | h
      · exact Or.inl rfl
      · rcases List.mem_cons.mp h with rfl | h
        · exact Or.inl (Bool.or_true m).symm
        · exact Or.inr (ih h)

theorem climb_known (mask : List Bool) (layer hashes : List H)
    (hlen : mask.length = layer.length) :
    climb node (known mask layer) (siblings mask layer ++ hashes) =
      some (known (parentsMask mask) (parents node layer), hashes) := by
  induction layer using parents.induct generalizing mask with
  | case1 =>
      rw [List.length_eq_zero_iff.mp hlen]
      simp [known, siblings, climb, parentsMask, parents]
  | case2 a =>
      obtain ⟨m, rfl⟩ := List.length_eq_one_iff.mp hlen
      cases m <;> simp [known, siblings, climb, parentsMask, parents]
  | case3 a b rest ih =>
      cases mask with
      | nil => cases hlen
      | cons m mask =>
          cases mask with
          | nil => simp at hlen
          | cons n mask =>
              have hrest := ih mask (by simpa using hlen)
              cases m <;> cases n <;>
                simp [siblings, climb, children, parentsMask, parents, hrest]

theorem climbs_known (k : ℕ) (mask : List Bool) (layer hashes : List H)
    (hlen : mask.length = layer.length) (hmem : true ∈ mask) :
    ∃ top : List Bool, top.length = (ascend node k layer).length ∧ true ∈ top ∧
      climbs node k (known mask layer) (proof node k mask layer ++ hashes) =
        some (known top (ascend node k layer)) := by
  induction k generalizing mask layer with
  | zero => exact ⟨mask, hlen, hmem, rfl⟩
  | succ k ih =>
      have hup : (parentsMask mask).length = (parents node layer).length := by
        rw [length_parentsMask, length_parents, hlen]
      obtain ⟨top, htop, htrue, hclimbs⟩ :=
        ih (parentsMask mask) (parents node layer) hup (mem_parentsMask hmem)
      refine ⟨top, htop, htrue, ?_⟩
      rw [proof, List.append_assoc, climbs, climb_known node mask layer _ hlen]
      exact hclimbs

/-- Leaves selected by a nonempty mask, and the proof for them, give the root
of the tree. -/
theorem climbs_proof {mask : List Bool} {leaves : List H} {r : H}
    (hlen : mask.length = leaves.length) (hmem : true ∈ mask) (hroot : root node leaves = some r) :
    climbs node leaves.length (known mask leaves) (proof node leaves.length mask leaves) =
      some [some r] := by
  obtain ⟨top, htop, htrue, hclimbs⟩ := climbs_known node leaves.length mask leaves [] hlen hmem
  rw [List.append_nil] at hclimbs
  rw [(root_eq_some_iff node).mp hroot] at hclimbs htop
  obtain ⟨m, rfl⟩ := List.length_eq_one_iff.mp htop
  obtain rfl : true = m := by simpa using htrue
  exact hclimbs

/-! ### When no sibling is needed -/

theorem siblings_eq_nil_of_uniform {b : Bool} {mask : List Bool} (layer : List H)
    (h : ∀ m ∈ mask, m = b) : siblings mask layer = [] := by
  induction mask using parentsMask.induct generalizing layer with
  | case1 => rfl
  | case2 m => cases m <;> rfl
  | case3 m n rest ih =>
      obtain rfl := h m (by simp)
      obtain rfl := h n (by simp)
      have hrest := fun layer ↦ ih layer fun m' hm' ↦ h m' (by simp [hm'])
      rcases layer with - | ⟨a, - | ⟨a', layer⟩⟩ <;> cases n <;> simp [siblings, hrest]

theorem parentsMask_uniform {b : Bool} {mask : List Bool} (h : ∀ m ∈ mask, m = b) :
    ∀ m ∈ parentsMask mask, m = b := by
  induction mask using parentsMask.induct with
  | case1 => exact h
  | case2 m => exact h
  | case3 m n rest ih =>
      obtain rfl := h m (by simp)
      obtain rfl := h n (by simp)
      intro m' hm'
      rw [parentsMask, Bool.or_self] at hm'
      rcases List.mem_cons.mp hm' with rfl | hm'
      · rfl
      · exact ih (fun m'' hm'' ↦ h m'' (by simp [hm''])) m' hm'

/-- Without a sibling on this layer, a mask is as uniform as its parent. -/
theorem uniform_of_parentsMask {b : Bool} {mask : List Bool} {layer : List H}
    (hlen : mask.length = layer.length) (hnil : siblings mask layer = [])
    (h : ∀ m ∈ parentsMask mask, m = b) : ∀ m ∈ mask, m = b := by
  induction layer using parents.induct generalizing mask with
  | case1 =>
      rw [List.length_eq_zero_iff.mp hlen]
      simp
  | case2 a =>
      obtain ⟨m, rfl⟩ := List.length_eq_one_iff.mp hlen
      exact h
  | case3 a a' rest ih =>
      rcases mask with - | ⟨m, - | ⟨n, mask⟩⟩
      · cases hlen
      · simp at hlen
      · have heq : m = n := by
          cases m <;> cases n <;> simp [siblings] at hnil ⊢
        subst heq
        have hnil' : siblings mask rest = [] := by
          cases m <;> simpa [siblings] using hnil
        have hhead : m = b := h m (by simp [parentsMask])
        have hlen' : mask.length = rest.length := by simpa using hlen
        have htail := ih hlen' hnil' fun m' hm' ↦ h m' (by simp [parentsMask, hm'])
        intro m' hm'
        simp only [List.mem_cons] at hm'
        rcases hm' with rfl | rfl | hm'
        · exact hhead
        · exact hhead
        · exact htail m' hm'

theorem proof_eq_nil_of_uniform {b : Bool} (k : ℕ) {mask : List Bool} (layer : List H)
    (h : ∀ m ∈ mask, m = b) : proof node k mask layer = [] := by
  induction k generalizing mask layer with
  | zero => rfl
  | succ k ih =>
      rw [proof, siblings_eq_nil_of_uniform layer h, ih _ (parentsMask_uniform h)]
      rfl

theorem uniform_of_proof_eq_nil (k : ℕ) {mask : List Bool} {layer : List H}
    (hlen : mask.length = layer.length) (hk : layer.length ≤ k + 1)
    (hnil : proof node k mask layer = []) : ∃ b, ∀ m ∈ mask, m = b := by
  induction k generalizing mask layer with
  | zero =>
      rcases mask with - | ⟨m, - | ⟨n, mask⟩⟩
      · exact ⟨true, by simp⟩
      · exact ⟨m, by simp⟩
      · simp at hlen
        omega
  | succ k ih =>
      rw [proof, List.append_eq_nil_iff] at hnil
      have hup : (parentsMask mask).length = (parents node layer).length := by
        rw [length_parentsMask, length_parents, hlen]
      obtain ⟨b, hb⟩ := ih hup (by rw [length_parents]; omega) hnil.2
      exact ⟨b, uniform_of_parentsMask hlen hnil.1 hb⟩

/-- A proof lists no hash exactly when all leaves or none are selected. -/
theorem proof_eq_nil_iff {mask : List Bool} {leaves : List H}
    (hlen : mask.length = leaves.length) :
    proof node leaves.length mask leaves = [] ↔ ∃ b, ∀ m ∈ mask, m = b := by
  constructor
  · exact uniform_of_proof_eq_nil node leaves.length hlen (Nat.le_succ _)
  · rintro ⟨b, hb⟩
    exact proof_eq_nil_of_uniform node leaves.length leaves hb

/-! ### Windows of leaves -/

/-- The leaves from `s` up to, but not including, `e`. -/
def windowMask (n s e : ℕ) : List Bool := (List.range n).map fun i ↦ decide (s ≤ i ∧ i < e)

@[simp] theorem length_windowMask (n s e : ℕ) : (windowMask n s e).length = n := by
  simp [windowMask]

theorem true_mem_windowMask {n s e : ℕ} (hse : s < e) (hen : e ≤ n) :
    true ∈ windowMask n s e := by
  apply List.mem_map.mpr
  exact ⟨s, List.mem_range.mpr (by omega), by simp [hse]⟩

theorem windowMask_uniform_iff {n s e : ℕ} (hse : s < e) (hen : e ≤ n) :
    (∃ b, ∀ m ∈ windowMask n s e, m = b) ↔ s = 0 ∧ e = n := by
  constructor
  · rintro ⟨b, hb⟩
    obtain rfl := hb true (true_mem_windowMask hse hen)
    have hin : ∀ i < n, s ≤ i ∧ i < e := by
      intro i hi
      simpa using hb _ (List.mem_map.mpr ⟨i, List.mem_range.mpr hi, rfl⟩)
    have hfirst := hin 0 (by omega)
    have hlast := hin (n - 1) (by omega)
    omega
  · rintro ⟨rfl, rfl⟩
    refine ⟨true, ?_⟩
    intro m hm
    obtain ⟨i, hi, rfl⟩ := List.mem_map.mp hm
    simpa using List.mem_range.mp hi

theorem lookup_zip_range' (m s i : ℕ) (hashes : List H) :
    ((List.range' s m).zip hashes).lookup i =
      if s ≤ i ∧ i < s + m then hashes[i - s]? else none := by
  induction m generalizing s hashes with
  | zero =>
      rw [if_neg (by omega)]
      rfl
  | succ m ih =>
      cases hashes with
      | nil => simp
      | cons h hashes =>
          rw [List.range'_succ, List.zip_cons_cons, List.lookup_cons, ih]
          by_cases hi : i = s
          · subst hi
            simp
          · have hbeq : (i == s) = false := by simpa using hi
            rw [hbeq]
            by_cases hin : s ≤ i ∧ i < s + (m + 1)
            · obtain ⟨j, hj⟩ : ∃ j, i - s = j + 1 := ⟨i - s - 1, by omega⟩
              have hj' : i - (s + 1) = j := by omega
              rw [if_pos hin, if_pos (by omega), hj, hj', List.getElem?_cons_succ]
            · rw [if_neg hin, if_neg (by omega)]

/-- The bottom layer that a window of the leaves determines. -/
theorem place_window (leaves : List H) (s e : ℕ) :
    place leaves.length ((List.range' s (e - s)).zip ((leaves.drop s).take (e - s))) =
      known (windowMask leaves.length s e) leaves := by
  apply List.ext_getElem
  · simp [place, known]
  · intro i hi _
    have hi' : i < leaves.length := by simpa [place] using hi
    simp only [place, known, windowMask, List.getElem_map, List.getElem_range,
      List.getElem_zipWith, lookup_zip_range', decide_eq_true_eq]
    by_cases hin : s ≤ i ∧ i < e
    · have hsum : s + (i - s) = i := by omega
      rw [if_pos hin, if_pos (by omega), List.getElem?_take, if_pos (by omega),
        List.getElem?_drop, hsum, List.getElem?_eq_getElem hi']
    · rw [if_neg hin, if_neg (by omega)]

/-- The proof for a window of a tree. -/
def windowProof (leaves : List H) (s e : ℕ) : List H :=
  proof node leaves.length (windowMask leaves.length s e) leaves

theorem recompute_windowProof {leaves : List H} {s e : ℕ} {r : H} (hse : s < e)
    (hen : e ≤ leaves.length) (hroot : root node leaves = some r) :
    recompute node leaves.length
      ((List.range' s (e - s)).zip ((leaves.drop s).take (e - s)))
      (windowProof node leaves s e) = some r := by
  have hall : ((List.range' s (e - s)).zip ((leaves.drop s).take (e - s))).all
      (fun p ↦ decide (p.1 < leaves.length)) = true := by
    apply List.all_eq_true.mpr
    intro p hp
    have hmem := List.mem_range'_1.mp (List.of_mem_zip hp).1
    simp only [decide_eq_true_eq]
    omega
  rw [recompute, if_pos hall, place_window, windowProof,
    climbs_proof node (length_windowMask _ _ _) (true_mem_windowMask hse hen) hroot]

theorem windowProof_eq_nil_iff {leaves : List H} {s e : ℕ} (hse : s < e)
    (hen : e ≤ leaves.length) :
    windowProof node leaves s e = [] ↔ s = 0 ∧ e = leaves.length :=
  (proof_eq_nil_iff node (length_windowMask _ _ _)).trans (windowMask_uniform_iff hse hen)

/-! ## Soundness -/

/-- The pairs hashed while climbing one layer. -/
def climbPairs : List (Option H) → List H → List (H × H)
  | x :: y :: rest, hashes =>
      match children x y hashes with
      | none => []
      | some (pair, hashes) => pair.toList ++ climbPairs rest hashes
  | _, _ => []

def climbsPairs : ℕ → List (Option H) → List H → List (H × H)
  | 0, _, _ => []
  | k + 1, layer, hashes =>
      climbPairs layer hashes ++
        match climb node layer hashes with
        | none => []
        | some (up, hashes) => climbsPairs k up hashes

/-- The pairs hashed by `recompute`. -/
def recomputePairs (n : ℕ) (given : List (ℕ × H)) (hashes : List H) : List (H × H) :=
  climbsPairs node n (place n given) hashes

def layerPairs : List H → List (H × H)
  | a :: b :: rest => (a, b) :: layerPairs rest
  | _ => []

/-- The pairs hashed in the first `k` layers of a tree. -/
def treePairs : ℕ → List H → List (H × H)
  | 0, _ => []
  | k + 1, layer => layerPairs layer ++ treePairs k (parents node layer)

/-- No pair of one list has the hash of a different pair of the other. -/
def CollisionFree (used tree : List (H × H)) : Prop :=
  ∀ p ∈ used, ∀ q ∈ tree, node p.1 p.2 = node q.1 q.2 → p = q

theorem CollisionFree.mono {used used' tree tree' : List (H × H)}
    (h : CollisionFree node used tree) (hused : used' ⊆ used) (htree : tree' ⊆ tree) :
    CollisionFree node used' tree' :=
  fun p hp q hq ↦ h p (hused hp) q (htree hq)

/-- Every known node of a layer is the node of the honest layer. -/
def Agrees (layer : List (Option H)) (honest : List H) : Prop :=
  List.Forall₂ (fun x a ↦ ∀ b, x = some b → b = a) layer honest

theorem children_cases {x y : Option H} {hashes rest : List H} {pair : Option (H × H)}
    (h : children x y hashes = some (pair, rest)) :
    (x = none ∧ y = none ∧ pair = none) ∨
      ∃ a b, pair = some (a, b) ∧ (∀ v, x = some v → v = a) ∧ ∀ v, y = some v → v = b := by
  cases x with
  | none =>
      cases y with
      | none => exact Or.inl ⟨rfl, rfl, (Prod.mk.inj (Option.some.inj h)).1.symm⟩
      | some b =>
          cases hashes with
          | nil => cases h
          | cons a hashes =>
              obtain ⟨rfl, -⟩ := Prod.mk.inj (Option.some.inj h)
              exact Or.inr ⟨a, b, rfl, by simp, by simp⟩
  | some a =>
      cases y with
      | none =>
          cases hashes with
          | nil => cases h
          | cons b hashes =>
              obtain ⟨rfl, -⟩ := Prod.mk.inj (Option.some.inj h)
              exact Or.inr ⟨a, b, rfl, by simp, by simp⟩
      | some b =>
          obtain ⟨rfl, -⟩ := Prod.mk.inj (Option.some.inj h)
          exact Or.inr ⟨a, b, rfl, by simp, by simp⟩

theorem length_climb {layer up : List (Option H)} {hashes rest : List H}
    (h : climb node layer hashes = some (up, rest)) : up.length = (layer.length + 1) / 2 := by
  induction layer, hashes using climb.induct node generalizing up rest with
  | case1 hashes =>
      obtain ⟨rfl, -⟩ := Prod.mk.inj (Option.some.inj h)
      simp
  | case2 x hashes =>
      obtain ⟨rfl, -⟩ := Prod.mk.inj (Option.some.inj h)
      simp
  | case3 x y rest' hashes hchildren => simp [climb, hchildren] at h
  | case4 x y rest' hashes pair hashes' hchildren hclimb ih => simp [climb, hchildren, hclimb] at h
  | case5 x y rest' hashes pair hashes' hchildren up' hashes'' hclimb ih =>
      simp only [climb, hchildren, hclimb] at h
      obtain ⟨rfl, -⟩ := Prod.mk.inj (Option.some.inj h)
      simp only [List.length_cons, ih hclimb]
      omega

/-- One layer: when the parents agree and nothing collides, the layer agrees. -/
theorem climb_agrees {layer up : List (Option H)} {hashes rest : List H} {honest : List H}
    (h : climb node layer hashes = some (up, rest)) (hlen : layer.length = honest.length)
    (hfree : CollisionFree node (climbPairs layer hashes) (layerPairs honest))
    (hup : Agrees up (parents node honest)) : Agrees layer honest := by
  induction honest using parents.induct generalizing layer up hashes with
  | case1 =>
      rw [List.length_eq_zero_iff.mp hlen]
      exact List.Forall₂.nil
  | case2 a =>
      obtain ⟨x, rfl⟩ := List.length_eq_one_iff.mp hlen
      obtain ⟨rfl, -⟩ := Prod.mk.inj (Option.some.inj h)
      exact hup
  | case3 a b honest ih =>
      rcases layer with - | ⟨x, - | ⟨y, layer⟩⟩
      · cases hlen
      · simp at hlen
      · rw [climb] at h
        cases hchildren : children x y hashes with
        | none => simp [hchildren] at h
        | some result =>
            obtain ⟨pair, hashes'⟩ := result
            cases hclimb : climb node layer hashes' with
            | none => simp [hchildren, hclimb] at h
            | some result =>
                obtain ⟨up', rest'⟩ := result
                simp only [hchildren, hclimb, Option.some.injEq, Prod.mk.injEq] at h
                obtain ⟨rfl, rfl⟩ := h
                rw [parents] at hup
                obtain ⟨hhead, htail⟩ := List.forall₂_cons.mp hup
                have hlayer : Agrees layer honest := by
                  apply ih hclimb (by simpa using hlen) _ htail
                  apply hfree.mono
                  · simp [climbPairs, hchildren]
                  · exact List.subset_cons_self _ _
                rcases children_cases hchildren with ⟨rfl, rfl, -⟩ | ⟨v, w, rfl, hx, hy⟩
                · exact List.Forall₂.cons (by simp) (List.Forall₂.cons (by simp) hlayer)
                · have hpair : (v, w) = (a, b) := by
                    apply hfree (v, w) _ (a, b)
                    · exact List.mem_cons_self
                    · exact hhead _ rfl
                    · simp [climbPairs, hchildren]
                  obtain ⟨rfl, rfl⟩ := Prod.mk.inj hpair
                  exact List.Forall₂.cons hx (List.Forall₂.cons hy hlayer)

theorem climbs_agrees {k : ℕ} {layer : List (Option H)} {hashes honest : List H} {r : H}
    (h : climbs node k layer hashes = some [some r]) (hlen : layer.length = honest.length)
    (htop : ascend node k honest = [r])
    (hfree : CollisionFree node (climbsPairs node k layer hashes) (treePairs node k honest)) :
    Agrees layer honest := by
  induction k generalizing layer hashes honest with
  | zero =>
      obtain rfl := Option.some.inj h
      rw [ascend] at htop
      subst htop
      exact List.Forall₂.cons (fun b hb ↦ (Option.some.inj hb).symm) List.Forall₂.nil
  | succ k ih =>
      rw [climbs] at h
      cases hclimb : climb node layer hashes with
      | none => simp [hclimb] at h
      | some result =>
          obtain ⟨up, hashes'⟩ := result
          simp only [hclimb] at h
          have huplen : up.length = (parents node honest).length := by
            rw [length_climb node hclimb, length_parents, hlen]
          have hup : Agrees up (parents node honest) := by
            apply ih h huplen htop
            apply hfree.mono
            · simp [climbsPairs, hclimb]
            · exact List.subset_append_right _ _
          apply climb_agrees node hclimb hlen _ hup
          apply hfree.mono
          · exact List.subset_append_left _ _
          · exact List.subset_append_left _ _

theorem lt_of_recompute {n : ℕ} {given : List (ℕ × H)} {hashes : List H} {r : H}
    (h : recompute node n given hashes = some r) :
    (∀ p ∈ given, p.1 < n) ∧ climbs node n (place n given) hashes = some [some r] := by
  rw [recompute] at h
  split at h
  · rename_i hall
    refine ⟨fun p hp ↦ by simpa using List.all_eq_true.mp hall p hp, ?_⟩
    split at h
    · rwa [← Option.some.inj h]
    · cases h
  · cases h

/-- A recomputed root binds every given leaf to its position in any tree with
that root and as many leaves. -/
theorem recompute_binds {n : ℕ} {given : List (ℕ × H)} {hashes leaves : List H} {r : H}
    (h : recompute node n given hashes = some r) (hroot : root node leaves = some r)
    (hn : leaves.length = n)
    (hfree : CollisionFree node (recomputePairs node n given hashes) (treePairs node n leaves))
    {i : ℕ} {a : H} (hi : given.lookup i = some a) : leaves[i]? = some a := by
  subst hn
  obtain ⟨hlt, hclimbs⟩ := lt_of_recompute node h
  have hagrees : Agrees (place leaves.length given) leaves :=
    climbs_agrees node hclimbs (by simp [place]) ((root_eq_some_iff node).mp hroot) hfree
  obtain ⟨l₁, l₂, rfl, -⟩ := List.lookup_eq_some_iff.mp hi
  have hi' : i < leaves.length := hlt (i, a) (by simp)
  have hget := (List.forall₂_iff_get.mp hagrees).2 i (by simpa [place] using hi') hi'
  rw [List.getElem?_eq_getElem hi']
  exact congrArg some (hget a (by simpa [place] using hi)).symm

theorem climb_of_unknown {layer : List (Option H)} (hashes : List H) (h : ∀ x ∈ layer, x = none) :
    ∃ up, climb node layer hashes = some (up, hashes) ∧ ∀ x ∈ up, x = none := by
  induction layer, hashes using climb.induct node with
  | case1 hashes => exact ⟨[], rfl, h⟩
  | case2 x hashes => exact ⟨[x], rfl, h⟩
  | case3 x y rest hashes hchildren =>
      obtain rfl := h x (by simp)
      obtain rfl := h y (by simp)
      cases hchildren
  | case4 x y rest hashes pair hashes' hchildren hclimb ih =>
      obtain ⟨up, hup, -⟩ := ih fun z hz ↦ h z (by simp [hz])
      rw [hclimb] at hup
      cases hup
  | case5 x y rest hashes pair hashes' hchildren up hashes'' hclimb ih =>
      obtain rfl := h x (by simp)
      obtain rfl := h y (by simp)
      obtain ⟨rfl, rfl⟩ := Prod.mk.inj (Option.some.inj hchildren)
      obtain ⟨up', hup', hnone⟩ := ih fun z hz ↦ h z (by simp [hz])
      exact ⟨none :: up', by simp [climb, children, hup'], by simpa using hnone⟩

/-- Some leaf has to be given. -/
theorem given_ne_nil_of_recompute {n : ℕ} {given : List (ℕ × H)} {hashes : List H} {r : H}
    (h : recompute node n given hashes = some r) : given ≠ [] := by
  rintro rfl
  have hclimbs := (lt_of_recompute node h).2
  have hunknown : ∀ x ∈ place n ([] : List (ℕ × H)), x = none := by
    intro x hx
    obtain ⟨i, -, rfl⟩ := List.mem_map.mp hx
    rfl
  generalize place n ([] : List (ℕ × H)) = layer at hclimbs hunknown
  clear h
  induction n generalizing layer hashes with
  | zero =>
      obtain rfl := Option.some.inj hclimbs
      cases hunknown (some r) (by simp)
  | succ n ih =>
      obtain ⟨up, hup, hnone⟩ := climb_of_unknown node hashes hunknown
      rw [climbs, hup] at hclimbs
      exact ih up hclimbs hnone

end BeeEngine.Merkle

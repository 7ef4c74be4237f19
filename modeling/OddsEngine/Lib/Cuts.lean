/-
  File:      OddsEngine/Lib/Cuts.lean
  Subject:   A keyed stream, cut where its key changes.

  A consumer that folds a stream into an accumulator and hands the accumulator out each time the
  key of the next element differs from the key of the last one, and once more at the end of the
  stream, hands out the CUTS of the stream. This file says what they are, for any key, any
  accumulator and any stream:

  * `cuts_map_fst` -- their keys are the keys of the stream with repeated neighbours dropped;
  * `destutter_ne_pairwise_lt_iff` -- these are strictly increasing exactly when the stream's
    keys never decrease;
  * `cuts_eq_of_sorted` -- on such a stream the cut of a key is the fold of every element whose
    key is at most it;
  * `cuts_insert` -- one more element, which the accumulator ignores, leaves the cuts there are and
    adds `extraCuts` to them: none, one or two.
-/
import Mathlib.Data.List.Destutter
import Mathlib.Order.Lattice

namespace Lib

variable {α κ τ β : Type*} [DecidableEq κ] (key : α → κ) (upd : τ → α → τ)

/-! ## 1. The cuts of a stream -/

/-- The pairs (key, accumulator) handed out over the stream `l` from the accumulator `t`. -/
def cuts : τ → List α → List (κ × τ)
  | _, [] => []
  | t, [a] => [(key a, upd t a)]
  | t, a :: b :: l =>
      if key a = key b then cuts (upd t a) (b :: l)
      else (key a, upd t a) :: cuts (upd t a) (b :: l)

/-- The pairs handed out before the end of the stream is known: `cuts` without the last one. -/
def openCuts : τ → List α → List (κ × τ)
  | _, [] => []
  | _, [_] => []
  | t, a :: b :: l =>
      if key a = key b then openCuts (upd t a) (b :: l)
      else (key a, upd t a) :: openCuts (upd t a) (b :: l)

@[simp] theorem cuts_nil (t : τ) : cuts key upd t [] = [] := rfl

@[simp] theorem cuts_singleton (t : τ) (a : α) : cuts key upd t [a] = [(key a, upd t a)] := rfl

/-- The cut of a run at its boundary, or nothing where the key goes on. -/
def seam (a b : α) (t : τ) : List (κ × τ) := if key a = key b then [] else [(key a, t)]

theorem seam_of_eq {a b : α} (h : key a = key b) (t : τ) : seam key a b t = [] := if_pos h

theorem seam_of_ne {a b : α} (h : key a ≠ key b) (t : τ) : seam key a b t = [(key a, t)] :=
  if_neg h

theorem cuts_cons_cons (t : τ) (a b : α) (l : List α) :
    cuts key upd t (a :: b :: l) = seam key a b (upd t a) ++ cuts key upd (upd t a) (b :: l) := by
  by_cases h : key a = key b <;> simp [cuts, seam, h]

theorem openCuts_cons_cons (t : τ) (a b : α) (l : List α) :
    openCuts key upd t (a :: b :: l) =
      seam key a b (upd t a) ++ openCuts key upd (upd t a) (b :: l) := by
  by_cases h : key a = key b <;> simp [openCuts, seam, h]

/-- The last cut of a non-empty stream carries the key of the last element and the fold of all. -/
theorem cuts_concat (t : τ) (p : List α) (a : α) :
    cuts key upd t (p ++ [a]) =
      openCuts key upd t (p ++ [a]) ++ [(key a, (p ++ [a]).foldl upd t)] := by
  induction p generalizing t with
  | nil => simp [openCuts]
  | cons x p ih =>
    cases p with
    | nil => simp [cuts_cons_cons, openCuts_cons_cons, openCuts]
    | cons y p =>
      simp only [List.cons_append, cuts_cons_cons, openCuts_cons_cons, List.foldl_cons,
        List.append_assoc]
      rw [← List.cons_append, ih (upd t x)]
      simp only [List.cons_append, List.foldl_cons]

/-- Cuts across a join: those of the first part up to its last run, the seam, the second part. -/
theorem cuts_append_cons (t : τ) (p : List α) (a b : α) (q : List α) :
    cuts key upd t (p ++ a :: b :: q) =
      openCuts key upd t (p ++ [a]) ++ seam key a b ((p ++ [a]).foldl upd t) ++
        cuts key upd ((p ++ [a]).foldl upd t) (b :: q) := by
  induction p generalizing t with
  | nil => simp [cuts_cons_cons, openCuts]
  | cons x p ih =>
    cases p with
    | nil => simp [cuts_cons_cons, openCuts_cons_cons, openCuts]
    | cons y p =>
      simp only [List.cons_append, cuts_cons_cons, openCuts_cons_cons, List.foldl_cons,
        List.append_assoc]
      rw [← List.cons_append, ih (upd t x)]
      simp only [List.cons_append, List.foldl_cons, List.append_assoc]

/-- Every accumulator handed out is the fold of what came before it. -/
theorem mem_cuts {t : τ} {l : List α} {c : κ × τ} (hc : c ∈ cuts key upd t l) :
    ∃ p q, l = p ++ q ∧ c.2 = p.foldl upd t := by
  induction l generalizing t with
  | nil => exact absurd hc List.not_mem_nil
  | cons a l ih =>
    have hrest : c ∈ cuts key upd (upd t a) l → ∃ p q, a :: l = p ++ q ∧ c.2 = p.foldl upd t := by
      intro h
      obtain ⟨p, q, hl, hp⟩ := ih h
      exact ⟨a :: p, q, by rw [hl, List.cons_append], hp⟩
    cases l with
    | nil =>
      rw [cuts_singleton, List.mem_singleton] at hc
      exact ⟨[a], [], rfl, by rw [hc]; rfl⟩
    | cons b l =>
      rw [cuts_cons_cons, List.mem_append] at hc
      rcases hc with hc | hc
      · unfold seam at hc
        split at hc
        · exact absurd hc List.not_mem_nil
        · exact ⟨[a], b :: l, rfl, by rw [List.mem_singleton.mp hc]; rfl⟩
      · exact hrest hc

/-- A view of the accumulator that is an accumulator itself has the same cuts. -/
theorem cuts_map_view {υ : Type*} (view : τ → υ) (upd' : υ → α → υ)
    (h : ∀ t a, view (upd t a) = upd' (view t) a) (t : τ) (l : List α) :
    (cuts key upd t l).map (fun c => (c.1, view c.2)) = cuts key upd' (view t) l := by
  induction l generalizing t with
  | nil => rfl
  | cons a l ih =>
    cases l with
    | nil => simp [h]
    | cons b l =>
      have hseam : (seam key a b (upd t a)).map (fun c => (c.1, view c.2)) =
          seam key a b (view (upd t a)) := by
        by_cases hab : key a = key b <;> simp [seam, hab]
      rw [cuts_cons_cons, cuts_cons_cons, List.map_append, ih, hseam, h]

/-! ## 2. The keys of the cuts -/

/-- The keys handed out are the keys of the stream with repeated neighbours dropped. -/
theorem cuts_map_fst (t : τ) (l : List α) :
    (cuts key upd t l).map Prod.fst = (l.map key).destutter (· ≠ ·) := by
  fun_induction cuts key upd t l with
  | case1 => rfl
  | case2 => simp
  | case3 t a b l h ih =>
    rw [ih]
    simp [List.destutter_cons', h]
  | case4 t a b l h ih =>
    rw [List.map_cons, ih]
    simp [List.destutter_cons', h]

/-- Dropping repeated neighbours drops no element. -/
theorem mem_destutter_ne {α : Type*} [DecidableEq α] (a : α) (l : List α) :
    a ∈ l.destutter (· ≠ ·) ↔ a ∈ l := by
  have h' : ∀ (l : List α) (b : α), a ∈ l.destutter' (· ≠ ·) b ↔ a = b ∨ a ∈ l := by
    intro l
    induction l with
    | nil => simp
    | cons c l ih =>
      intro b
      by_cases hbc : b = c
      · subst hbc
        rw [List.destutter'_cons_neg _ (by simp), ih]
        simp
      · rw [List.destutter'_cons_pos _ hbc, List.mem_cons, ih, List.mem_cons]
  cases l with
  | nil => simp
  | cons b l => rw [List.destutter_cons', h', List.mem_cons]

section Sorted

variable {κ : Type*} [LinearOrder κ] (key : α → κ)

/-- Dropping repeated neighbours leaves a strictly increasing list exactly when the list never
    decreases (the induction carries the last key kept). -/
theorem destutter'_ne_pairwise_lt_iff (a : κ) (l : List κ) :
    (l.destutter' (· ≠ ·) a).Pairwise (· < ·) ↔ (a :: l).Pairwise (· ≤ ·) := by
  induction l generalizing a with
  | nil => simp
  | cons b l ih =>
    by_cases hab : a = b
    · subst hab
      rw [List.destutter'_cons_neg _ (by simp), ih]
      simp only [List.pairwise_cons, List.mem_cons, forall_eq_or_imp]
      constructor
      · rintro ⟨h1, h2⟩
        exact ⟨⟨le_refl a, h1⟩, h1, h2⟩
      · rintro ⟨⟨_, h1⟩, _, h2⟩
        exact ⟨h1, h2⟩
    · rw [List.destutter'_cons_pos _ hab, List.pairwise_cons, ih]
      constructor
      · rintro ⟨h1, h2⟩
        refine List.pairwise_cons.mpr ⟨fun x hx => ?_, h2⟩
        have hb : a < b := h1 b (List.mem_destutter' _ _ _)
        rcases List.mem_cons.mp hx with rfl | hx
        · exact hb.le
        · exact hb.le.trans ((List.pairwise_cons.mp h2).1 x hx)
      · intro h
        obtain ⟨h1, h2⟩ := List.pairwise_cons.mp h
        refine ⟨fun x hx => ?_, h2⟩
        have hb : a < b := lt_of_le_of_ne (h1 b List.mem_cons_self) hab
        rcases List.mem_cons.mp ((List.destutter'_sublist _ _ _).subset hx) with rfl | hx
        · exact hb
        · exact hb.trans_le ((List.pairwise_cons.mp h2).1 x hx)

theorem destutter_ne_pairwise_lt_iff (l : List κ) :
    (l.destutter (· ≠ ·)).Pairwise (· < ·) ↔ l.Pairwise (· ≤ ·) := by
  cases l with
  | nil => simp
  | cons a l => rw [List.destutter_cons']; exact destutter'_ne_pairwise_lt_iff a l

/-- **On a stream whose keys never decrease, the cut of a key is the fold of exactly the elements
    whose key is at most it**, and there is one cut for every key. -/
theorem cuts_eq_of_sorted (t : τ) (l : List α) (h : (l.map key).Pairwise (· ≤ ·)) :
    cuts key upd t l = ((l.map key).destutter (· ≠ ·)).map
      (fun k => (k, (l.filter (fun a => decide (key a ≤ k))).foldl upd t)) := by
  fun_induction cuts key upd t l with
  | case1 => rfl
  | case2 t a => simp
  | case3 t a b l hab ih =>
    obtain ⟨ha, hs⟩ := List.pairwise_cons.mp h
    rw [ih hs]
    simp only [List.map_cons, List.destutter_cons', hab]
    rw [List.destutter'_cons_neg _ (by simp)]
    refine List.map_congr_left fun k hk => ?_
    have hbk : key b ≤ k := by
      rcases List.mem_cons.mp ((List.destutter'_sublist _ _ _).subset hk) with rfl | hk
      · exact le_refl _
      · exact (List.pairwise_cons.mp hs).1 k hk
    have hfa : (a :: b :: l).filter (fun x => decide (key x ≤ k)) =
        a :: (b :: l).filter (fun x => decide (key x ≤ k)) :=
      List.filter_cons_of_pos (by simpa [hab] using hbk)
    rw [hfa, List.foldl_cons]
  | case4 t a b l hab ih =>
    obtain ⟨ha, hs⟩ := List.pairwise_cons.mp h
    have hlt : key a < key b := lt_of_le_of_ne (ha _ (by simp)) hab
    have hlow : ∀ x ∈ b :: l, ¬ key x ≤ key a := by
      intro x hx
      have hx' : key b ≤ key x := by
        rcases List.mem_cons.mp hx with rfl | hx
        · exact le_refl _
        · exact (List.pairwise_cons.mp hs).1 _ (List.mem_map_of_mem hx)
      exact not_le.mpr (hlt.trans_le hx')
    rw [ih hs]
    simp only [List.map_cons, List.destutter_cons']
    rw [List.destutter'_cons_pos _ hab, List.map_cons]
    congr 1
    · -- nothing after the boundary has a key as small as the first run's
      have hnil : (b :: l).filter (fun x => decide (key x ≤ key a)) = [] := by
        rw [List.filter_eq_nil_iff]
        intro x hx
        simpa using hlow x hx
      rw [List.filter_cons_of_pos (by simp), hnil]
      rfl
    · refine List.map_congr_left fun k hk => ?_
      have hbk : key b ≤ k := by
        rcases List.mem_cons.mp ((List.destutter'_sublist _ _ _).subset hk) with rfl | hk
        · exact le_refl _
        · exact (List.pairwise_cons.mp hs).1 k hk
      have hfa : (a :: b :: l).filter (fun x => decide (key x ≤ k)) =
          a :: (b :: l).filter (fun x => decide (key x ≤ k)) :=
        List.filter_cons_of_pos (by simpa using hlt.le.trans hbk)
      rw [hfa, List.foldl_cons]

end Sorted

/-! ## 3. One more element, ignored by the accumulator -/

/-- The cuts that an ignored element `r` between `pre` and `post` adds, where the accumulator stands
    at `t`: none if it has a neighbour's key; else its own, and where it splits a run in two, one at
    the key of that run before it. -/
def extraCuts (t : τ) (pre post : List α) (r : α) : List (κ × τ) :=
  match pre.getLast?, post.head? with
  | none, none => [(key r, t)]
  | some a, none => if key r = key a then [] else [(key r, t)]
  | none, some b => if key r = key b then [] else [(key r, t)]
  | some a, some b =>
    if key r = key a ∨ key r = key b then []
    else if key a = key b then [(key a, t), (key r, t)]
    else [(key r, t)]

/-- What holds of the extra cuts, read off the neighbours. -/
theorem forall_extraCuts_iff (P : κ × τ → Prop) (t : τ) (pre post : List α) (r : α) :
    (∀ c ∈ extraCuts key t pre post r, P c) ↔
      ((∃ a, pre.getLast? = some a ∧ key r = key a) ∨
        ∃ b, post.head? = some b ∧ key r = key b) ∨
      (P (key r, t) ∧ ∀ a b, pre.getLast? = some a → post.head? = some b → key a = key b →
        P (key a, t)) := by
  unfold extraCuts
  cases pre.getLast? with
  | none =>
    cases post.head? with
    | none => simp
    | some b => by_cases hrb : key r = key b <;> simp [hrb]
  | some a =>
    cases post.head? with
    | none => by_cases hra : key r = key a <;> simp [hra]
    | some b =>
      by_cases hra : key r = key a
      · simp [hra]
      · by_cases hrb : key r = key b
        · simp [hrb]
        · by_cases hab : key a = key b
          · simp [hrb, hab, and_comm]
          · simp [hra, hrb, hab]

/-- The seams around an ignored element: the seam there was, and the extra cuts. -/
theorem seam_insert (t : τ) (p : List α) (a r b : α) (q : List α) :
    ∃ s s', seam key a b t = s ++ s' ∧ seam key a r t ++ seam key r b t =
      s ++ extraCuts key t (p ++ [a]) (b :: q) r ++ s' := by
  have hlast : (p ++ [a]).getLast? = some a := by simp
  unfold extraCuts
  rw [hlast, List.head?_cons]
  dsimp only
  by_cases har : key a = key r
  · rw [seam_of_eq key har, if_pos (Or.inl har.symm)]
    refine ⟨[], seam key r b t, ?_, by simp⟩
    simp [seam, har]
  · by_cases hrb : key r = key b
    · rw [seam_of_eq key hrb, if_pos (Or.inr hrb)]
      refine ⟨seam key a r t, [], ?_, by simp⟩
      simp [seam, hrb]
    · have hno : ¬ (key r = key a ∨ key r = key b) := by
        rintro (h | h)
        · exact har h.symm
        · exact hrb h
      rw [seam_of_ne key har, seam_of_ne key hrb, if_neg hno]
      by_cases hab : key a = key b
      · rw [seam_of_eq key hab, if_pos hab]
        exact ⟨[], [], rfl, rfl⟩
      · rw [seam_of_ne key hab, if_neg hab]
        exact ⟨[(key a, t)], [], rfl, rfl⟩

/-- **An element the accumulator ignores adds its extra cuts**, and leaves the others. -/
theorem cuts_insert (t : τ) (pre post : List α) (r : α)
    (hr : upd (pre.foldl upd t) r = pre.foldl upd t) :
    ∃ p q, cuts key upd t (pre ++ post) = p ++ q ∧
      cuts key upd t (pre ++ r :: post) =
        p ++ extraCuts key (pre.foldl upd t) pre post r ++ q := by
  rcases List.eq_nil_or_concat' pre with rfl | ⟨p, a, rfl⟩
  · have hr' : upd t r = t := hr
    cases post with
    | nil => exact ⟨[], [], rfl, by simp [extraCuts, hr']⟩
    | cons b q =>
      refine ⟨[], cuts key upd t (b :: q), rfl, ?_⟩
      rw [List.nil_append, cuts_cons_cons, hr']
      by_cases hrb : key r = key b <;> simp [extraCuts, seam, hrb]
  · generalize hT : (p ++ [a]).foldl upd t = T at hr
    cases post with
    | nil =>
      have h1 : cuts key upd t (p ++ [a] ++ [r]) =
          openCuts key upd t (p ++ [a]) ++ seam key a r T ++ [(key r, T)] := by
        rw [List.append_assoc, List.singleton_append, cuts_append_cons, hT, cuts_singleton, hr]
      refine ⟨openCuts key upd t (p ++ [a]) ++ [(key a, T)], [], ?_, ?_⟩
      · rw [List.append_nil, List.append_nil, cuts_concat, hT]
      · rw [h1]
        by_cases har : key a = key r
        · simp [extraCuts, seam, har]
        · have hra : ¬ key r = key a := fun e => har e.symm
          simp [extraCuts, seam, har, hra]
    | cons b q =>
      have h1 : cuts key upd t (p ++ [a] ++ r :: b :: q) =
          openCuts key upd t (p ++ [a]) ++ (seam key a r T ++ seam key r b T) ++
            cuts key upd T (b :: q) := by
        rw [List.append_assoc, List.singleton_append, cuts_append_cons, hT, cuts_cons_cons, hr]
        simp only [List.append_assoc]
      have h2 : cuts key upd t (p ++ [a] ++ b :: q) =
          openCuts key upd t (p ++ [a]) ++ seam key a b T ++ cuts key upd T (b :: q) := by
        rw [List.append_assoc, List.singleton_append, cuts_append_cons, hT]
      obtain ⟨s, s', hseam, hseams⟩ := seam_insert key T p a r b q
      refine ⟨openCuts key upd t (p ++ [a]) ++ s, s' ++ cuts key upd T (b :: q), ?_, ?_⟩
      · rw [h2, hseam]
        simp only [List.append_assoc]
      · rw [h1, hseams]
        simp only [List.append_assoc]

end Lib

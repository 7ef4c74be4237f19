/-
  File:      OddsEngine/Sim/Simulation.lean
  Subject:   The generation loop with its books and its truth file (`main` of sim/main.cpp).

  At every tick each market makes one step; its latent vector goes to the truth file, is observed by
  every book, and the books whose interval divides the tick quote from what they remember. What the
  random streams give is a parameter: the latent vectors, and the normal draws of the books' noise.
  Each quote is kept with the vector it was built from.

  * `seen_visits` -- a book has observed the vectors of all ticks up to the one it quotes at;
  * `lagged_of_mem` -- so it quotes from the vector of its lag before, or of the first tick;
  * `map_update_run` -- what the sink is given is the record stream of `Generator`, for quotes made
    from these vectors.
-/
import OddsEngine.Sim.BookHistory
import OddsEngine.Sim.Generator
import OddsEngine.Sim.Quote
import OddsEngine.Tools.ValidateDevig

namespace OddsEngine

open Lib

namespace Simulation

variable {F : Type} [DoubleArith F] [Pow F F] [Truncate F]

abbrev Latent (F : Type) := Fin kOutcomes → F

/-- One record, the book it is of, and the vector it was quoted from. -/
structure Quoted (F : Type) (books : Nat) where
  book : Fin books
  lagged : Latent F
  update : OddsUpdate

/-- The books of every market, their counters, what the sink was given. -/
structure Desk (F : Type) (books : Nat) where
  history : Nat → Fin books → Bookmaker.History (Latent F)
  seqNo : Fin books → UInt64 := fun _ => 0
  sink : List (Quoted F books) := []

/-- Nothing observed: `history_{}`. -/
def Desk.init {books : Nat} : Desk F books := { history := fun _ _ => { history := fun _ _ => 0 } }

structure State (F : Type) (books : Nat) where
  desk : Desk F books
  truth : List (TruthRecord F) := []

/-- What the random streams make of a run. -/
structure Streams (F : Type) where
  /-- `sim.latent.step()`. -/
  latent : UInt64 → Nat → Latent F
  /-- The draws of one quote of one book. -/
  normal : UInt64 → Nat → Nat → Fin kOutcomes → F

def truthOf (tick : UInt64) (m : Nat) (latent : Latent F) : TruthRecord F :=
  { tick
    marketId := m.toUInt16
    outcomeCount := kOutcomes.toUInt8
    prob := fun i => if h : i.val < kOutcomes then latent ⟨i.val, h⟩ else 0 }

/-- One round of the innermost loop. -/
def bookStep (roster : List (SimBookConfig F)) (streams : Streams F) (tick : UInt64) (m : Nat)
    (d : Desk F roster.length) (b : Fin roster.length) : Desk F roster.length :=
  let history := (d.history m b).observe (streams.latent tick m)
  let d := { d with
    history := Function.update d.history m (Function.update (d.history m) b history) }
  if tick % Generator.interval (roster.get b) ≠ 0 then d
  else
    let lagged := history.laggedView (roster.get b).cfg.lagTicks
    let odds := Bookmaker.quote (roster.get b).cfg (streams.normal tick m b) lagged
    let update := Generator.recordOf (roster.get b).cfg.bookId (d.seqNo b) tick m odds
    { d with seqNo := Function.update d.seqNo b (d.seqNo b + 1)
             sink := d.sink ++ [{ book := b, lagged, update }] }

def marketStep (roster : List (SimBookConfig F)) (streams : Streams F) (tick : UInt64)
    (s : State F roster.length) (m : Nat) : State F roster.length :=
  { truth := s.truth ++ [truthOf tick m (streams.latent tick m)]
    desk := (List.finRange roster.length).foldl (bookStep roster streams tick m) s.desk }

/-- The generation loop. -/
def run (roster : List (SimBookConfig F)) (streams : Streams F) (markets : UInt32)
    (ticks : UInt64) : State F roster.length :=
  (List.range ticks.toNat).foldl (fun s tick =>
    (List.range markets.toNat).foldl (marketStep roster streams tick.toUInt64) s)
    { desk := Desk.init }

/-! ## 1. The truth file -/

/-- The records of the truth file, tick by tick. -/
def truthRecords (streams : Streams F) (markets ticks : Nat) : List (TruthRecord F) :=
  (List.range ticks).flatMap fun tick =>
    (List.range markets).map fun m =>
      truthOf tick.toUInt64 m (streams.latent tick.toUInt64 m)

variable (roster : List (SimBookConfig F)) (streams : Streams F)

theorem truth_foldl_marketStep (tick : UInt64) (ms : List Nat) (s : State F roster.length) :
    (ms.foldl (marketStep roster streams tick) s).truth =
      s.truth ++ ms.map fun m => truthOf tick m (streams.latent tick m) := by
  induction ms generalizing s with
  | nil => exact (List.append_nil _).symm
  | cons m ms ih =>
    rw [List.foldl_cons, ih, List.map_cons, marketStep]
    exact (List.append_cons _ _ _).symm

theorem truth_run (markets : UInt32) (ticks : UInt64) :
    (run roster streams markets ticks).truth =
      truthRecords streams markets.toNat ticks.toNat := by
  unfold run truthRecords
  induction ticks.toNat with
  | zero => rfl
  | succ n ih =>
    rw [List.range_succ, List.foldl_append, List.foldl_cons, List.foldl_nil,
      truth_foldl_marketStep, ih, List.flatMap_append, List.flatMap_singleton]

/-! ## 2. One loop over the visits -/

def step (d : Desk F roster.length) (v : Generator.Visit roster.length) : Desk F roster.length :=
  bookStep roster streams v.tick.toUInt64 v.market d v.book

theorem desk_foldl_marketStep (tick : UInt64) (ms : List Nat) (s : State F roster.length) :
    (ms.foldl (marketStep roster streams tick) s).desk =
      ms.foldl (fun d m => (List.finRange roster.length).foldl (bookStep roster streams tick m) d)
        s.desk := by
  induction ms generalizing s with
  | nil => rfl
  | cons m ms ih => rw [List.foldl_cons, ih, List.foldl_cons, marketStep]

theorem desk_run (markets : UInt32) (ticks : UInt64) :
    (run roster streams markets ticks).desk =
      (Generator.visits roster.length markets.toNat ticks.toNat).foldl (step roster streams)
        Desk.init := by
  unfold run
  induction ticks.toNat with
  | zero => rfl
  | succ n ih =>
    rw [List.range_succ, List.foldl_append, List.foldl_cons, List.foldl_nil,
      desk_foldl_marketStep, ih, Generator.visits_succ, List.foldl_append]
    simp only [Generator.visitsAt, List.foldl_flatMap, List.foldl_map]
    rfl

/-! ## 3. What a book has observed -/

/-- The visits of one market's book. -/
def visitsOf {books : Nat} (m : Nat) (b : Fin books) (vs : List (Generator.Visit books)) :
    List (Generator.Visit books) :=
  vs.filter fun v => decide (v.market = m ∧ v.book = b)

theorem visitsOf_append {books : Nat} (m : Nat) (b : Fin books)
    (vs ws : List (Generator.Visit books)) :
    visitsOf m b (vs ++ ws) = visitsOf m b vs ++ visitsOf m b ws := List.filter_append _ _

theorem visitsOf_singleton {books : Nat} (m : Nat) (b : Fin books) (v : Generator.Visit books) :
    visitsOf m b [v] = if v.market = m ∧ v.book = b then [v] else [] := by
  by_cases hv : v.market = m ∧ v.book = b
  · simp [visitsOf, hv]
  · rw [if_neg hv]
    exact List.filter_eq_nil_iff.mpr fun w hw => by
      rw [List.mem_singleton.mp hw]
      simpa using hv

/-- The vectors they brought. -/
def seen (m : Nat) (b : Fin roster.length) (vs : List (Generator.Visit roster.length)) :
    List (Latent F) :=
  (visitsOf m b vs).map fun v => streams.latent v.tick.toUInt64 v.market

omit [DoubleArith F] [Pow F F] [Truncate F] in
theorem seen_eq (m : Nat) (b : Fin roster.length) (vs : List (Generator.Visit roster.length)) :
    seen roster streams m b vs = ((visitsOf m b vs).map Generator.Visit.tick).map fun tick =>
      streams.latent tick.toUInt64 m := by
  unfold seen
  rw [List.map_map]
  refine List.map_congr_left fun v hv => ?_
  have hown := of_decide_eq_true (List.mem_filter.mp hv).2
  show streams.latent v.tick.toUInt64 v.market = _
  rw [hown.1]
  rfl

/-- Quoting or not, a visit shows one book the vector of its market. -/
theorem history_step (d : Desk F roster.length) (v : Generator.Visit roster.length) (m : Nat)
    (b : Fin roster.length) :
    (step roster streams d v).history m b =
      if v.market = m ∧ v.book = b then
        (d.history m b).observe (streams.latent v.tick.toUInt64 v.market)
      else d.history m b := by
  have hsplit : (step roster streams d v).history m b =
      Function.update d.history v.market (Function.update (d.history v.market) v.book
        ((d.history v.market v.book).observe (streams.latent v.tick.toUInt64 v.market))) m b := by
    unfold step bookStep
    dsimp only
    split
    · rfl
    · rfl
  rw [hsplit]
  by_cases hm : v.market = m
  · subst hm
    rw [Function.update_self]
    by_cases hb : v.book = b
    · subst hb
      rw [Function.update_self, if_pos ⟨rfl, rfl⟩]
    · rw [Function.update_of_ne (Ne.symm hb), if_neg fun h => hb h.2]
  · rw [Function.update_of_ne (Ne.symm hm), if_neg fun h => hm h.1]

/-- **After any visits** a book has observed what its own ones brought. -/
theorem observed_foldl (vs : List (Generator.Visit roster.length)) (m : Nat)
    (b : Fin roster.length) :
    ((vs.foldl (step roster streams) Desk.init).history m b).Observed
      (seen roster streams m b vs) := by
  induction vs using List.reverseRecOn with
  | nil => exact Bookmaker.History.observed_nil _
  | append_singleton vs v ih =>
    rw [List.foldl_append, List.foldl_cons, List.foldl_nil, history_step]
    unfold seen at ih ⊢
    rw [visitsOf_append, visitsOf_singleton, List.map_append]
    by_cases hv : v.market = m ∧ v.book = b
    · rw [if_pos hv, if_pos hv]
      exact ih.observe _
    · rw [if_neg hv, if_neg hv, List.map_nil, List.append_nil]
      exact ih

/-- One round of the books has one visit of each of the market's. -/
theorem ticks_books {books : Nat} (m m' : Nat) (b : Fin books) (tick : Nat) :
    (visitsOf m b ((List.finRange books).map fun book =>
      ({ tick, market := m', book } : Generator.Visit books))).map Generator.Visit.tick =
        if m' = m then [tick] else [] := by
  unfold visitsOf
  rw [List.filter_map, List.map_map]
  by_cases hm : m' = m
  · have hcond : ((fun v => decide (v.market = m ∧ v.book = b)) ∘ fun book =>
        ({ tick, market := m', book } : Generator.Visit books)) = fun book => decide (book = b) := by
      funext book
      simp [hm]
    have hone : (List.finRange books).filter (fun book => decide (book = b)) = [b] := by
      rw [List.filter_eq, List.count_eq_one_of_mem (List.nodup_finRange _) (List.mem_finRange b)]
      rfl
    rw [hcond, hone, if_pos hm]
    rfl
  · have hcond : ((fun v => decide (v.market = m ∧ v.book = b)) ∘ fun book =>
        ({ tick, market := m', book } : Generator.Visit books)) = fun _ => false := by
      funext book
      simp [hm]
    rw [hcond, List.filter_false, if_neg hm]
    rfl

/-- So has a tick, of the markets there are. -/
theorem ticks_visitsAt {books : Nat} (m : Nat) (b : Fin books) (tick markets : Nat) :
    (visitsOf m b (Generator.visitsAt books markets tick)).map Generator.Visit.tick =
      if m < markets then [tick] else [] := by
  induction markets with
  | zero => rfl
  | succ n ih =>
    have hsplit : Generator.visitsAt books (n + 1) tick = Generator.visitsAt books n tick ++
        (List.finRange books).map fun book => { tick, market := n, book } := by
      unfold Generator.visitsAt
      rw [List.range_succ, List.flatMap_append, List.flatMap_singleton]
    rw [hsplit, visitsOf_append, List.map_append, ih, ticks_books]
    by_cases hlt : m < n
    · rw [if_pos hlt, if_neg (Nat.ne_of_gt hlt), if_pos (Nat.lt_succ_of_lt hlt), List.append_nil]
    · by_cases heq : n = m
      · rw [if_neg hlt, if_pos heq, if_pos (by omega), List.nil_append]
      · rw [if_neg hlt, if_neg heq, if_neg (by omega), List.nil_append]

theorem ticks_visits {books : Nat} {m markets : Nat} (hm : m < markets) (b : Fin books)
    (ticks : Nat) :
    (visitsOf m b (Generator.visits books markets ticks)).map Generator.Visit.tick =
      List.range ticks := by
  induction ticks with
  | zero => rfl
  | succ n ih =>
    rw [Generator.visits_succ, visitsOf_append, List.map_append, ih, ticks_visitsAt, if_pos hm,
      List.range_succ]

theorem eq_range_of_split {xs ys : List Nat} {x n : Nat} (h : xs ++ x :: ys = List.range n) :
    xs = List.range x := by
  have hlen : xs.length + (ys.length + 1) = n := by
    have hlength := congrArg List.length h
    rwa [List.length_append, List.length_cons, List.length_range] at hlength
  have hx : x = xs.length := by
    have hget := congrArg (fun l => l[xs.length]?) h
    simp only [List.getElem?_append_right (Nat.le_refl _),
      Nat.sub_self, List.getElem?_cons_zero] at hget
    rw [List.getElem?_range (by omega)] at hget
    exact Option.some.inj hget
  have htake := congrArg (List.take xs.length) h
  rw [List.take_left, List.take_range, Nat.min_eq_left (by omega)] at htake
  rw [hx]
  exact htake

theorem lt_of_split {books markets ticks : Nat} {vs ws : List (Generator.Visit books)}
    {v : Generator.Visit books} (h : Generator.visits books markets ticks = vs ++ v :: ws) :
    v.tick < ticks ∧ v.market < markets := by
  refine Generator.mem_visits ?_
  rw [h]
  exact List.mem_append_right _ List.mem_cons_self

omit [DoubleArith F] [Pow F F] [Truncate F] in
/-- **At its visit of a tick** a book has observed the ticks before it. -/
theorem seen_visits {markets ticks : Nat} {vs ws : List (Generator.Visit roster.length)}
    {v : Generator.Visit roster.length}
    (h : Generator.visits roster.length markets ticks = vs ++ v :: ws) :
    seen roster streams v.market v.book vs =
      (List.range v.tick).map fun tick => streams.latent tick.toUInt64 v.market := by
  have hticks := ticks_visits (lt_of_split h).2 v.book ticks
  rw [h, visitsOf_append, ← List.singleton_append, visitsOf_append, visitsOf_singleton,
    if_pos ⟨rfl, rfl⟩, List.map_append, List.map_append, List.map_singleton,
    List.singleton_append] at hticks
  rw [seen_eq, eq_range_of_split hticks]

/-! ## 4. What it quotes from -/

/-- The vector `lag` ticks before, or that of the first tick. -/
def laggedLatent (lag tick m : Nat) : Latent F := streams.latent (tick - min lag tick).toUInt64 m

/-- The book's lag is that many ticks, and its ring can hold them. -/
structure HasLag (b : Fin roster.length) (lag : Nat) : Prop where
  eq : (roster.get b).cfg.lagTicks.toInt = lag
  lt : lag < Bookmaker.kMaxLag

/-- At its visit of a tick the book's lagged view is that vector. -/
theorem laggedView_visits {markets : Nat} {ticks : UInt64}
    {vs ws : List (Generator.Visit roster.length)} {v : Generator.Visit roster.length}
    (h : Generator.visits roster.length markets ticks.toNat = vs ++ v :: ws) {lag : Nat}
    (hlag : HasLag roster v.book lag) :
    (((vs.foldl (step roster streams) Desk.init).history v.market v.book).observe
      (streams.latent v.tick.toUInt64 v.market)).laggedView (roster.get v.book).cfg.lagTicks =
        laggedLatent streams lag v.tick v.market := by
  have htick := (lt_of_split h).1
  have hticks := ticks.toNat_lt
  have hobs := (observed_foldl roster streams vs v.market v.book).observe
    (streams.latent v.tick.toUInt64 v.market)
  have hsucc : seen roster streams v.market v.book vs ++ [streams.latent v.tick.toUInt64 v.market] =
      (List.range (v.tick + 1)).map fun tick => streams.latent tick.toUInt64 v.market := by
    rw [seen_visits roster streams h, List.range_succ, List.map_append]
    rfl
  rw [hsucc] at hobs
  have hview := hobs.laggedView (by simp) (by simp; omega) hlag.eq hlag.lt
  rw [List.length_map, List.length_range, Nat.add_sub_cancel, List.getElem?_map,
    List.getElem?_range (by omega)] at hview
  exact (Option.some.inj hview).symm

/-- What a visit sends, where its book quotes. -/
def quoteAt (d : Desk F roster.length) (v : Generator.Visit roster.length) :
    Quoted F roster.length :=
  let lagged := ((d.history v.market v.book).observe
    (streams.latent v.tick.toUInt64 v.market)).laggedView (roster.get v.book).cfg.lagTicks
  { book := v.book
    lagged
    update := Generator.recordOf (roster.get v.book).cfg.bookId (d.seqNo v.book) v.tick.toUInt64 v.market
      (Bookmaker.quote (roster.get v.book).cfg (streams.normal v.tick.toUInt64 v.market v.book) lagged) }

omit [DoubleArith F] [Pow F F] [Truncate F] in
theorem sends_iff (v : Generator.Visit roster.length) : Generator.sends roster v = true ↔
    v.tick.toUInt64 % Generator.interval (roster.get v.book) = 0 :=
  decide_eq_true_iff

theorem sink_step (d : Desk F roster.length) (v : Generator.Visit roster.length) :
    (step roster streams d v).sink =
      if Generator.sends roster v then d.sink ++ [quoteAt roster streams d v] else d.sink := by
  unfold step bookStep
  by_cases hdue : Generator.sends roster v = true
  · rw [if_pos hdue, if_neg (not_not.mpr ((sends_iff roster v).mp hdue))]
    rfl
  · rw [if_neg hdue, if_pos fun e => hdue ((sends_iff roster v).mpr e)]

theorem seqNo_step (d : Desk F roster.length) (v : Generator.Visit roster.length) :
    (step roster streams d v).seqNo =
      if Generator.sends roster v then Function.update d.seqNo v.book (d.seqNo v.book + 1)
      else d.seqNo := by
  unfold step bookStep
  by_cases hdue : Generator.sends roster v = true
  · rw [if_pos hdue, if_neg (not_not.mpr ((sends_iff roster v).mp hdue))]
  · rw [if_neg hdue, if_pos fun e => hdue ((sends_iff roster v).mpr e)]

/-- The record is of this visit, and was quoted from the vector the book's lag points at. -/
structure QuotedAt (q : Quoted F roster.length) (v : Generator.Visit roster.length) : Prop where
  book : q.book = v.book
  update : ∃ seqNo odds, q.update =
    Generator.recordOf (roster.get v.book).cfg.bookId seqNo v.tick.toUInt64 v.market odds
  lagged : ∀ lag, HasLag roster v.book lag →
    q.lagged = laggedLatent streams lag v.tick v.market

/-- **Every record so far** is of one of the visits so far. -/
theorem quotedAt_of_mem {markets : Nat} {ticks : UInt64}
    {vs ws : List (Generator.Visit roster.length)}
    (h : Generator.visits roster.length markets ticks.toNat = vs ++ ws) :
    ∀ q ∈ (vs.foldl (step roster streams) Desk.init).sink, ∃ v ∈ vs,
      QuotedAt roster streams q v := by
  induction vs using List.reverseRecOn generalizing ws with
  | nil => exact fun q hq => absurd hq List.not_mem_nil
  | append_singleton vs v ih =>
    rw [List.append_assoc, List.singleton_append] at h
    intro q hq
    rw [List.foldl_append, List.foldl_cons, List.foldl_nil, sink_step] at hq
    have hearlier : ∀ q ∈ (vs.foldl (step roster streams) Desk.init).sink, ∃ w ∈ vs ++ [v],
        QuotedAt roster streams q w := by
      intro q hq
      obtain ⟨w, hw, hquoted⟩ := ih h q hq
      exact ⟨w, List.mem_append_left _ hw, hquoted⟩
    by_cases hdue : Generator.sends roster v
    · rw [if_pos hdue] at hq
      rcases List.mem_append.mp hq with hq | hq
      · exact hearlier q hq
      · refine ⟨v, List.mem_append_right _ (List.mem_singleton.mpr rfl), ?_⟩
        rw [List.mem_singleton.mp hq]
        exact ⟨rfl, ⟨_, _, rfl⟩, fun lag hlag => laggedView_visits roster streams h hlag⟩
    · rw [if_neg hdue] at hq
      exact hearlier q hq

/-- **Every record of a run.** -/
theorem quotedAt_of_mem_run {markets : UInt32} {ticks : UInt64} {q : Quoted F roster.length}
    (hq : q ∈ (run roster streams markets ticks).desk.sink) :
    ∃ v ∈ Generator.visits roster.length markets.toNat ticks.toNat,
      QuotedAt roster streams q v := by
  rw [desk_run] at hq
  exact quotedAt_of_mem roster streams (List.append_nil _).symm q hq

/-! ## 5. The record stream -/

/-- The probabilities the books quote, from the vectors of their lags. -/
def quotesOf (tick : UInt64) (m b : Nat) : Fin kOutcomes → F :=
  match roster[b]? with
  | none => fun _ => 0
  | some book => Bookmaker.withMargin book.cfg (Bookmaker.beliefOf book.cfg (streams.normal tick m b)
      (laggedLatent streams book.cfg.lagTicks.toInt.toNat tick.toNat m))

omit [Truncate F] in
theorem quotesOf_eq {b : Fin roster.length} {lag : Nat} (hlag : HasLag roster b lag) {tick : Nat}
    (htick : tick < 2 ^ 64) (m : Nat) :
    quotesOf roster streams tick.toUInt64 m b = Bookmaker.withMargin (roster.get b).cfg
      (Bookmaker.beliefOf (roster.get b).cfg (streams.normal tick.toUInt64 m b)
        (laggedLatent streams lag tick m)) := by
  have hbook : roster[b.val]? = some (roster.get b) := List.getElem?_eq_getElem b.isLt
  have hnat : tick.toUInt64.toNat = tick := UInt64.toNat_ofNat_of_lt' htick
  unfold quotesOf
  rw [hbook]
  dsimp only
  rw [hlag.eq, hnat, Int.toNat_natCast]

/-- **The sink is given the generator's records**, for quotes from these vectors. -/
theorem map_update_run (hlags : ∀ b, ∃ lag, HasLag roster b lag) (markets : UInt32)
    (ticks : UInt64) :
    (run roster streams markets ticks).desk.sink.map Quoted.update =
      Generator.generate roster (quotesOf roster streams) markets ticks := by
  have hvisits : ∀ vs ws, Generator.visits roster.length markets.toNat ticks.toNat = vs ++ ws →
      (vs.foldl (step roster streams) Desk.init).seqNo =
        (vs.foldl (Generator.step roster (quotesOf roster streams)) {}).seqNo ∧
      (vs.foldl (step roster streams) Desk.init).sink.map Quoted.update =
        (vs.foldl (Generator.step roster (quotesOf roster streams)) {}).sink := by
    intro vs
    induction vs using List.reverseRecOn with
    | nil => exact fun ws _ => ⟨rfl, rfl⟩
    | append_singleton vs v ih =>
      intro ws h
      rw [List.append_assoc, List.singleton_append] at h
      obtain ⟨hseq, hsink⟩ := ih _ h
      simp only [List.foldl_append, List.foldl_cons, List.foldl_nil]
      rw [sink_step, seqNo_step]
      unfold Generator.step Generator.bookStep
      by_cases hdue : Generator.sends roster v = true
      · obtain ⟨lag, hlag⟩ := hlags v.book
        have htick : v.tick < 2 ^ 64 := (lt_of_split h).1.trans ticks.toNat_lt
        have hlagged := laggedView_visits roster streams h hlag
        rw [if_pos hdue, if_pos hdue, if_neg (not_not.mpr (of_decide_eq_true hdue)), hseq,
          List.map_append, hsink, quotesOf_eq roster streams hlag htick, ← hlagged]
        refine ⟨rfl, ?_⟩
        rw [List.map_singleton, quoteAt, hseq]
        rfl
      · rw [if_neg hdue, if_neg hdue, if_pos fun e => hdue (decide_eq_true e)]
        exact ⟨hseq, hsink⟩
  rw [desk_run, Generator.generate_eq_foldl]
  exact (hvisits _ [] (List.append_nil _).symm).2

end Simulation

end OddsEngine

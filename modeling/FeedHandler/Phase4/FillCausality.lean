import FeedHandler.Lib.Run
import FeedHandler.Phase4.QuoteMirror

/-! The order of submissions and fills along a tape. Of every event of the tape a trace keeps
the calls that were made while it was processed, and the fills that it triggered. -/
namespace FeedHandler

open SimMatchingEngine (SideSorts printSide)

structure TapeEntry where
  calls : List RouterCall := []
  fills : List Fill := []

def RouterCall.submitted : RouterCall → Option Nat
  | .submit _ _ _ _ _ orderId => some orderId
  | .cancel .. => none

/-- The ids of the orders that were submitted while the event was processed. -/
def TapeEntry.submitted (entry : TapeEntry) : List Nat := entry.calls.filterMap RouterCall.submitted

/-- Every fill of the entry is of an order that was submitted earlier, and not in the entry. -/
def InOrder (past : List TapeEntry) (entry : TapeEntry) : Prop :=
  ∀ fill ∈ entry.fills, (∃ earlier ∈ past, fill.orderId ∈ earlier.submitted) ∧
    fill.orderId ∉ entry.submitted

/-- No fill comes before or together with the submission of its order. -/
def Causal (trace : List TapeEntry) : Prop :=
  Run.Along (fun past entry => past ++ [entry]) InOrder [] trace

instance (past : List TapeEntry) (entry : TapeEntry) : Decidable (InOrder past entry) :=
  inferInstanceAs (Decidable (∀ fill ∈ entry.fills, _ ∧ _))

instance (trace : List TapeEntry) : Decidable (Causal trace) :=
  inferInstanceAs (Decidable (Run.Along _ _ _ _))

/-- The trace of a run. -/
def traceOf {S A : Type*} (step : S → A → S) (entry : S → A → TapeEntry) :
    S → List A → List TapeEntry
  | _, [] => []
  | s, a :: rest => entry s a :: traceOf step entry (step s a) rest

/-- The event is a print that reaches one of the new quotes. -/
def Replacement.Meets (p : Replacement) (ev : BookEvent) (budget : Nat) : Prop :=
  p.symbol = ev.symbol.asU64 ∧ ∃ side, printSide ev budget = some side ∧
    ∃ price, p.price side = some price ∧ withinReach side ev.price.toNat price = true

/-- A strategy that quotes some quantity replaces quotes at a print that reaches the new ones. -/
def MeetsOwnQuote (size : Nat) (replacement : Option Replacement) (ev : BookEvent) (budget : Nat) :
    Prop :=
  0 < size ∧ ∃ p ∈ replacement, p.Meets ev budget

/-- Every quote was submitted at an earlier event. -/
def Known (past : List TapeEntry) (quotes : Quotes) : Prop :=
  ∀ symbol side q, quotes symbol side = some q → ∃ earlier ∈ past, q.orderId ∈ earlier.submitted

/-- What an event does to the quotes: nothing, if it is rejected, else a move of the strategy,
and the fills of the event, which take quotes and make none. -/
inductive QuoteTurn (sorts : SideSorts) (size : Nat) (quotes : Quotes) (next : Nat)
    (desk : OrderDesk) (ev : BookEvent) (budget : Nat) : Option Replacement → TapeEntry → Quotes → Prop
  | rejected : QuoteTurn sorts size quotes next desk ev budget none {} quotes
  | taken {replacement : Option Replacement} {calls : List RouterCall} {later after : Quotes}
      {last : Nat} (moves : Move size quotes next replacement calls later last)
      (fewer : ∀ symbol side q, after symbol side = some q → later symbol side = some q) :
      QuoteTurn sorts size quotes next desk ev budget replacement
        ⟨calls, ((calls.foldl (OrderDesk.route sorts) desk).engine.onMarketEvent ev budget).2⟩ after

variable {sorts : SideSorts} {size next last : Nat} {quotes later after : Quotes} {desk : OrderDesk}
  {ev : BookEvent} {budget : Nat} {replacement : Option Replacement} {entry : TapeEntry}
  {past : List TapeEntry} {calls : List RouterCall}

/-- A replacement submits its new quotes. -/
theorem Replacement.submitted (p : Replacement) (size : Nat) (before : Quotes) (next : Nat) :
    (p.calls size before next).filterMap RouterCall.submitted =
      ((p.quote next .buy).toList ++ (p.quote next .sell).toList).map StrategyQuote.orderId := by
  have cancels : ∀ (quote : Option StrategyQuote) (tsNs : UInt64),
      (cancelCalls quote tsNs).filterMap RouterCall.submitted = [] := by
    intro quote tsNs
    cases quote <;> rfl
  have submits : ∀ side, (p.submits size next side).filterMap RouterCall.submitted =
      (p.quote next side).toList.map StrategyQuote.orderId := by
    intro side
    simp only [Replacement.submits, Replacement.quote]
    cases p.price side <;> rfl
  simp only [Replacement.calls, List.filterMap_append, cancels, submits, List.nil_append,
    List.map_append]

/-- The quotes after a move are old ones that were not submitted now, or new ones that were. -/
theorem Move.quote_cases (moves : Move size quotes next replacement calls later last)
    (numbered : ∀ symbol side q, quotes symbol side = some q → q.orderId < next)
    {symbol : UInt64} {side : OrderSide} {q : StrategyQuote} (quoted : later symbol side = some q) :
    (quotes symbol side = some q ∧ q.orderId ∉ calls.filterMap RouterCall.submitted ∧
        ∀ p ∈ replacement, symbol ≠ p.symbol) ∨
      (q.orderId ∈ calls.filterMap RouterCall.submitted ∧
        ∃ p ∈ replacement, symbol = p.symbol ∧ p.price side = some q.price) := by
  obtain ⟨rfl, rfl, -⟩ := moves
  cases replacement with
  | none =>
    exact Or.inl ⟨quoted, List.not_mem_nil, fun p held => by cases held⟩
  | some p =>
    simp only [Option.map_some, Option.getD_some, Replacement.quotes] at quoted ⊢
    rw [p.submitted]
    by_cases here : symbol = p.symbol
    · rw [if_pos here] at quoted
      have priced : p.price side = some q.price := by
        obtain ⟨price, own, rfl⟩ := Option.map_eq_some_iff.mp quoted
        exact own
      refine Or.inr ⟨List.mem_map_of_mem ?_, p, rfl, here, priced⟩
      rw [List.mem_append, Option.mem_toList, Option.mem_toList]
      cases side
      · exact Or.inl quoted
      · exact Or.inr quoted
    · rw [if_neg here] at quoted
      refine Or.inl ⟨quoted, fun again => ?_, fun r same => by cases same; exact here⟩
      have below := numbered symbol side q quoted
      have fresh : ∀ side r, p.quote next side = some r → next ≤ r.orderId := by
        intro side r new
        obtain ⟨price, -, rfl⟩ := Option.map_eq_some_iff.mp new
        exact p.le_orderId next side
      obtain ⟨r, new, same⟩ := List.mem_map.mp again
      rw [List.mem_append, Option.mem_toList, Option.mem_toList] at new
      have above : next ≤ r.orderId := new.elim (fresh .buy r) (fresh .sell r)
      omega

theorem Known.mono (known : Known past quotes)
    (fewer : ∀ symbol side q, after symbol side = some q → quotes symbol side = some q) :
    Known past after :=
  fun symbol side q quoted => known symbol side q (fewer symbol side q quoted)

/-- After an event, every quote was submitted at it or before. -/
theorem QuoteTurn.known
    (turn : QuoteTurn sorts size quotes next desk ev budget replacement entry after)
    (mirrors : Mirrored size quotes next desk) (known : Known past quotes) :
    Known (past ++ [entry]) after := by
  cases turn with
  | rejected =>
    intro symbol side q quoted
    obtain ⟨earlier, member, submitted⟩ := known symbol side q quoted
    exact ⟨earlier, List.mem_append_left _ member, submitted⟩
  | taken moves fewer =>
    refine Known.mono ?_ fewer
    intro symbol side q quoted
    have numbered := fun symbol side q held => (mirrors.numbered symbol side q held).2
    rcases moves.quote_cases numbered quoted with ⟨old, -, -⟩ | ⟨new, -⟩
    · obtain ⟨earlier, member, submitted⟩ := known symbol side q old
      exact ⟨earlier, List.mem_append_left _ member, submitted⟩
    · exact ⟨_, List.mem_append_right _ (List.mem_singleton_self _), new⟩

/-- An event is in order exactly if it does not meet the quotes that it brings about. -/
theorem QuoteTurn.inOrder
    (turn : QuoteTurn sorts size quotes next desk ev budget replacement entry after)
    (sized : 0 < size) (mirrors : Mirrored size quotes next desk) (known : Known past quotes) :
    InOrder past entry ↔ ¬ MeetsOwnQuote size replacement ev budget := by
  have missed : ¬ MeetsOwnQuote size replacement ev budget ↔
      ∀ p ∈ replacement, ¬ p.Meets ev budget := by
    simp [MeetsOwnQuote, sized]
  rw [missed]
  cases turn with
  | rejected =>
    exact iff_of_true (fun fill member => absurd member List.not_mem_nil)
      (fun p held => by cases held)
  | @taken replacement calls later after last moves fewer =>
    have numbered := fun symbol side q held => (mirrors.numbered symbol side q held).2
    obtain ⟨moved, -⟩ := mirrors.move sorts sized moves
    by_cases strikes : ∃ side q, Strikes later ev budget side q
    · obtain ⟨side, q, strikes⟩ := strikes
      obtain ⟨qty, tsNs, struck⟩ := moved.struck strikes
      have only : ∀ fill ∈
          ((calls.foldl (OrderDesk.route sorts) desk).engine.onMarketEvent ev budget).2,
          fill.orderId = q.orderId := by
        intro fill member
        rw [struck.fills, List.mem_singleton] at member
        rw [member]
        rfl
      rcases moves.quote_cases numbered strikes.quoted with
        ⟨old, apart, elsewhere⟩ | ⟨new, p, held, here, priced⟩
      · refine iff_of_true (fun fill member => ?_) fun p held meets => elsewhere p held meets.1.symm
        rw [only fill member]
        exact ⟨known _ side q old, apart⟩
      · refine iff_of_false (fun ordered => ?_) fun missed => ?_
        · have member : strikeFill ev budget side q qty ∈
              ((calls.foldl (OrderDesk.route sorts) desk).engine.onMarketEvent ev budget).2 := by
            rw [struck.fills]
            exact List.mem_singleton_self _
          exact (ordered _ member).2 new
        · exact missed p held ⟨here.symm, side, strikes.sides, _, priced, strikes.near⟩
    · have quiet := (moved.unstruck fun side q strike => strikes ⟨side, q, strike⟩).1
      refine iff_of_true (fun fill member => ?_) ?_
      · rw [quiet] at member
        cases member
      · rintro p held ⟨here, side, sides, price, priced, near⟩
        refine strikes ⟨side, ⟨p.orderId next side, price⟩, sides, ?_, near⟩
        rw [moves.quotes_eq, Option.mem_def.mp held]
        simp only [Option.map_some, Option.getD_some, Replacement.quotes, here, if_true,
          Replacement.quote, priced]

/-- How a simulation shows its quotes, and those that it replaces at an event. -/
structure QuoteView (S : Type*) where
  quotes : S → Quotes
  next : S → Nat
  desk : S → OrderDesk
  replaced : S → BookEvent → Option Replacement

section Run

variable {S : Type*} {step : S → BookEvent × Nat → S} {entry : S → BookEvent × Nat → TapeEntry}
  {s : S}

/-- Where every step from a state that is held is a turn of the quotes, the trace of a run is
causal exactly if no step of it meets the quotes that it brings about. -/
theorem causal_iff (sorts : SideSorts) (view : QuoteView S) (Held : S → Prop) (sized : 0 < size)
    (mirrors : ∀ s, Held s → Mirrored size (view.quotes s) (view.next s) (view.desk s))
    (turns : ∀ s letter, Held s → Held (step s letter) ∧
      QuoteTurn sorts size (view.quotes s) (view.next s) (view.desk s) letter.1 letter.2
        (view.replaced s letter.1) (entry s letter) (view.quotes (step s letter)))
    (held : Held s) (empty : ∀ symbol side, view.quotes s symbol side = none)
    (tape : List (BookEvent × Nat)) :
    Causal (traceOf step entry s tape) ↔
      Run.Along step (fun s letter =>
        ¬ MeetsOwnQuote size (view.replaced s letter.1) letter.1 letter.2) s tape := by
  have known : Known [] (view.quotes s) := fun symbol side q quoted => by
    rw [empty] at quoted
    cases quoted
  clear empty
  suffices general : ∀ past, Known past (view.quotes s) →
      (Run.Along (fun past entry => past ++ [entry]) InOrder past (traceOf step entry s tape) ↔
        Run.Along step (fun s letter =>
          ¬ MeetsOwnQuote size (view.replaced s letter.1) letter.1 letter.2) s tape) from
    general [] known
  clear known
  induction tape generalizing s with
  | nil => exact fun _ _ => Iff.rfl
  | cons letter rest ih =>
    intro past known
    obtain ⟨after, turn⟩ := turns s letter held
    have here := turn.inOrder sized (mirrors s held) known
    exact and_congr here (ih after _ (turn.known (mirrors s held) known))

/-- A run without fills is causal, and without a quote size it meets no quote. -/
theorem causal_iff_of_quiet (view : QuoteView S) (Held : S → Prop)
    (quiet : ∀ s letter, Held s → (entry s letter).fills = [] ∧ Held (step s letter))
    (held : Held s) (tape : List (BookEvent × Nat)) :
    Causal (traceOf step entry s tape) ↔
      Run.Along step (fun s letter =>
        ¬ MeetsOwnQuote 0 (view.replaced s letter.1) letter.1 letter.2) s tape := by
  suffices general : ∀ past, Run.Along (fun past entry => past ++ [entry]) InOrder past
        (traceOf step entry s tape) ∧
      Run.Along step (fun s letter =>
        ¬ MeetsOwnQuote 0 (view.replaced s letter.1) letter.1 letter.2) s tape from
    iff_of_true (general []).1 (general []).2
  induction tape generalizing s with
  | nil => exact fun _ => ⟨trivial, trivial⟩
  | cons letter rest ih =>
    intro past
    obtain ⟨none, after⟩ := quiet s letter held
    obtain ⟨ordered, missed⟩ := ih after (past ++ [entry s letter])
    refine ⟨⟨fun fill member => ?_, ordered⟩, fun meets => absurd meets.1 (Nat.lt_irrefl 0), missed⟩
    rw [none] at member
    cases member

end Run

/-- Nothing rests in the engine. -/
def Bare (e : SimMatchingEngine) : Prop := ∀ symbol side, e.orders symbol side = []

/-- A submission without a quantity, or a cancel. -/
def RouterCall.Void : RouterCall → Prop
  | .submit _ _ _ qty _ _ => qty = 0
  | .cancel .. => True

/-- Replacements of size zero place nothing. -/
theorem Move.void (moves : Move 0 quotes next replacement calls later last) :
    ∀ call ∈ calls, call.Void := by
  intro call member
  rw [moves.calls_eq] at member
  cases replacement with
  | none => cases member
  | some p =>
    have cancels : ∀ (quote : Option StrategyQuote),
        call ∈ cancelCalls quote p.tsNs → call.Void := by
      intro quote held
      cases quote with
      | none => cases held
      | some q =>
        rw [List.mem_singleton.mp held]
        trivial
    have submits : ∀ side, call ∈ p.submits 0 next side → call.Void := by
      intro side held
      simp only [Replacement.submits] at held
      split at held
      · cases held
      · rw [List.mem_singleton.mp held]
        rfl
    simp only [Option.map_some, Option.getD_some, Replacement.calls, List.mem_append] at member
    rcases member with ((bid | ask) | bid) | ask
    · exact cancels _ bid
    · exact cancels _ ask
    · exact submits _ bid
    · exact submits _ ask

theorem bare_initial : Bare {} := fun _ _ => SimMatchingEngine.initial_orders

theorem Bare.sound {e : SimMatchingEngine} (bare : Bare e) : SimMatchingEngine.Sound e := by
  constructor <;> intros <;> simp_all [Bare, KWayMerge.Ordered]

theorem Bare.route (bare : Bare desk.engine) {call : RouterCall} (void : call.Void) :
    Bare (desk.route sorts call).engine := by
  intro key other
  cases call with
  | submit symbol side price qty tsNs id =>
    have idle : id = 0 ∨ qty = 0 := Or.inr void
    simp only [OrderDesk.route, SimMatchingEngine.submit, if_pos idle,
      SimMatchingEngine.bindOrderSymbol_orders]
    exact bare key other
  | cancel id tsNs =>
    simp only [OrderDesk.route, SimMatchingEngine.cancel_orders bare.sound, bare key other,
      List.filter_nil]

theorem Bare.foldl_route (bare : Bare desk.engine) (void : ∀ call ∈ calls, call.Void) :
    Bare (calls.foldl (OrderDesk.route sorts) desk).engine := by
  induction calls generalizing desk with
  | nil => exact bare
  | cons call rest ih =>
    exact ih (bare.route (void call List.mem_cons_self))
      fun later member => void later (List.mem_cons_of_mem call member)

theorem Bare.matched {e : SimMatchingEngine} (bare : Bare e) (ev : BookEvent) (budget : Nat) :
    (e.onMarketEvent ev budget).2 = [] ∧ Bare (e.onMarketEvent ev budget).1 := by
  constructor
  · refine List.eq_nil_iff_forall_not_mem.mpr fun fill member => ?_
    obtain ⟨face, -, p, served, -⟩ := SimMatchingEngine.mem_fills bare.sound member
    have held := SimMatchingEngine.mem_of_given served
    rw [bare] at held
    cases held
  · intro key other
    refine List.eq_nil_iff_forall_not_mem.mpr fun o member => ?_
    obtain ⟨p, held, -⟩ := SimMatchingEngine.exists_of_mem_print bare.sound member
    rw [bare] at held
    cases held

end FeedHandler

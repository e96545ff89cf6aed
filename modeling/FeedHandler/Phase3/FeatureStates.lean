import FeedHandler.Lib.Run
import FeedHandler.Phase3.FeaturePipeline

/-! The states of the symbols behind the cache of the last one. Whatever is cached, a quote
with two sides updates the state of its own symbol and no other. -/
namespace FeedHandler

/-- One call of the pipeline. -/
structure FeatureInput (D : Type*) where
  ev : BookEvent
  nbbo : Nbbo
  queueAheadHint : D

/-- The input has two sides and is about this symbol. -/
def FeatureInput.updates {D : Type*} (symbol : UInt64) (input : FeatureInput D) : Bool :=
  FeaturePipeline.quoted input.nbbo && input.ev.symbol.asU64 == symbol

theorem FeatureInput.updates_iff {D : Type*} {symbol : UInt64} {input : FeatureInput D} :
    input.updates symbol = true ↔
      FeaturePipeline.quoted input.nbbo = true ∧ input.ev.symbol.asU64 = symbol := by
  rw [updates, Bool.and_eq_true, beq_iff_eq]

namespace FeaturePipeline

variable {D : Type*} [Binary64 D] {p : FeaturePipeline D} {ev : BookEvent} {nbbo : Nbbo} {hint : D}

/-- The state of a symbol; a symbol never seen has the initial one. -/
def stateOf (p : FeaturePipeline D) (symbol : UInt64) : FeatureState D :=
  (p.bySymbol symbol).getD {}

def step (p : FeaturePipeline D) (input : FeatureInput D) : FeaturePipeline D :=
  (p.onEvent input.ev input.nbbo input.queueAheadHint).1

/-- A valid cache points to the state of its symbol. -/
def CacheSound (p : FeaturePipeline D) : Prop :=
  p.cachedValid = true → ∀ entry ∈ p.cachedState,
    entry = p.cachedSymbol ∧ (p.bySymbol entry).isSome = true

theorem initial_cacheSound (cfg : FeatureConfig) : ({ cfg } : FeaturePipeline D).CacheSound :=
  fun valid => absurd valid Bool.false_ne_true

theorem fetch_stateOf (p : FeaturePipeline D) (symbol other : UInt64) :
    (p.fetch symbol).stateOf other = p.stateOf other := by
  simp only [fetch, stateOf]
  cases known : p.bySymbol symbol with
  | some s => rfl
  | none =>
    by_cases same : other = symbol
    · subst same
      simp [known]
    · simp [same]

theorem fetch_known (p : FeaturePipeline D) (symbol : UInt64) :
    ((p.fetch symbol).bySymbol symbol).isSome = true := by
  simp only [fetch]
  cases known : p.bySymbol symbol with
  | some s => simp [known]
  | none => simp

/-- Through the cache or past it, a call reaches the state of its symbol. -/
theorem CacheSound.stateFor_spec (sound : p.CacheSound) (symbol : UInt64) :
    (p.stateFor symbol).2 = symbol ∧ (p.stateFor symbol).1.CacheSound ∧
      (p.stateFor symbol).1.cfg = p.cfg ∧
      ∀ other, (p.stateFor symbol).1.stateOf other = p.stateOf other := by
  have fetched : (p.fetch symbol).CacheSound := by
    rintro _ entry ⟨⟩
    exact ⟨rfl, fetch_known p symbol⟩
  have missed := And.intro fetched
    (And.intro (show (p.fetch symbol).cfg = p.cfg from rfl) (fetch_stateOf p symbol))
  simp only [stateFor]
  cases pointer : p.cachedState with
  | none => exact ⟨rfl, missed⟩
  | some entry =>
    simp only
    split
    · next hit =>
      have here := (sound hit.1 entry pointer).1
      exact ⟨here.trans hit.2, sound, rfl, fun _ => rfl⟩
    · exact ⟨rfl, missed⟩

/-- A call with a two-sided quote updates the state of its symbol and reports on it; any other
call changes no state. -/
theorem CacheSound.onEvent_spec (sound : p.CacheSound) (ev : BookEvent) (nbbo : Nbbo) (hint : D) :
    (p.onEvent ev nbbo hint).1.CacheSound ∧ (p.onEvent ev nbbo hint).1.cfg = p.cfg ∧
      (∀ other, (p.onEvent ev nbbo hint).1.stateOf other =
        if quoted nbbo = true ∧ ev.symbol.asU64 = other then
          updateState p.cfg (p.stateOf other) ev nbbo
        else p.stateOf other) ∧
      (p.onEvent ev nbbo hint).2 =
        if quoted nbbo = true then
          some (featureOf p.cfg (updateState p.cfg (p.stateOf ev.symbol.asU64) ev nbbo) ev nbbo hint)
        else none := by
  obtain ⟨key, kept, cfg, states⟩ := sound.stateFor_spec ev.symbol.asU64
  have own : ((p.stateFor ev.symbol.asU64).1.bySymbol ev.symbol.asU64).getD {} =
      p.stateOf ev.symbol.asU64 := states _
  simp only [onEvent, key, own]
  split
  · next both =>
    refine ⟨?_, cfg, ?_, rfl⟩
    · intro valid entry pointer
      obtain ⟨here, present⟩ := kept valid entry pointer
      refine ⟨here, ?_⟩
      by_cases same : entry = ev.symbol.asU64
      · subst same
        simp
      · simpa [same] using present
    · intro other
      by_cases same : ev.symbol.asU64 = other
      · subst same
        rw [if_pos ⟨both, rfl⟩]
        simp [stateOf]
      · rw [if_neg (fun found => same found.2), ← states other]
        simp [stateOf, Ne.symm same]
  · next missing =>
    refine ⟨kept, cfg, fun other => ?_, rfl⟩
    rw [if_neg (fun found => missing found.1), states]

/-- The state of a symbol after a run is made by its own two-sided quotes. -/
theorem CacheSound.stateOf_run (sound : p.CacheSound) (inputs : List (FeatureInput D))
    (symbol : UInt64) :
    (inputs.foldl step p).CacheSound ∧ (inputs.foldl step p).cfg = p.cfg ∧
      (inputs.foldl step p).stateOf symbol =
        (inputs.filter (·.updates symbol)).foldl
          (fun s input => updateState p.cfg s input.ev input.nbbo) (p.stateOf symbol) := by
  induction inputs generalizing p with
  | nil => exact ⟨sound, rfl, rfl⟩
  | cons input rest ih =>
    obtain ⟨next, cfg, states, -⟩ := sound.onEvent_spec input.ev input.nbbo input.queueAheadHint
    obtain ⟨last, same, run⟩ := ih next
    refine ⟨last, same.trans cfg, ?_⟩
    rw [List.foldl_cons, step, run, states, cfg, List.filter_cons]
    by_cases own : quoted input.nbbo = true ∧ input.ev.symbol.asU64 = symbol
    · rw [if_pos own, if_pos (FeatureInput.updates_iff.mpr own), List.foldl_cons]
    · rw [if_neg own, if_neg (mt FeatureInput.updates_iff.mp own)]

/-- The pipeline after a run from its construction. -/
def reached (cfg : FeatureConfig) (inputs : List (FeatureInput D)) : FeaturePipeline D :=
  inputs.foldl step { cfg := cfg }

/-- The state of a symbol after its two-sided quotes. -/
def stateAfter (cfg : FeatureConfig) (inputs : List (FeatureInput D)) : FeatureState D :=
  inputs.foldl (fun s input => updateState cfg s input.ev input.nbbo) {}

theorem reached_spec (cfg : FeatureConfig) (inputs : List (FeatureInput D)) :
    (reached cfg inputs).CacheSound ∧ (reached cfg inputs).cfg = cfg ∧
      ∀ symbol, (reached cfg inputs).stateOf symbol =
        stateAfter cfg (inputs.filter (·.updates symbol)) := by
  have run := fun symbol => (initial_cacheSound (D := D) cfg).stateOf_run inputs symbol
  exact ⟨(run 0).1, (run 0).2.1, fun symbol => (run symbol).2.2⟩

/-- What one more two-sided quote does to a reached state, and what comes out. -/
theorem reached_step (cfg : FeatureConfig) (inputs : List (FeatureInput D))
    {input : FeatureInput D} (both : quoted input.nbbo = true) :
    let s := updateState cfg ((reached cfg inputs).stateOf input.ev.symbol.asU64) input.ev input.nbbo
    ((reached cfg inputs).step input).stateOf input.ev.symbol.asU64 = s ∧
      ((reached cfg inputs).onEvent input.ev input.nbbo input.queueAheadHint).2 =
        some (featureOf cfg s input.ev input.nbbo input.queueAheadHint) := by
  obtain ⟨sound, same, -⟩ := reached_spec cfg inputs
  obtain ⟨-, -, states, out⟩ := sound.onEvent_spec input.ev input.nbbo input.queueAheadHint
  rw [same, if_pos both] at out
  refine ⟨?_, out⟩
  rw [step, states, if_pos ⟨both, rfl⟩, same]

end FeaturePipeline

end FeedHandler

import ScriptVet.Proofs.Run
import Mathlib.Data.List.Forall2

namespace ScriptVet

/-- The message of a breakdown. -/
def Outcome.fault? {α : Type} : Outcome α → Option Text
  | .broken what => some what
  | _ => none

def Grammar.breakdown? {α : Type} : Except Text α → Option Text
  | .ok _ => none
  | .error what => some what

/-- The message of the breakdown that a question leads to, if it leads to one. -/
def Grammar.fault? (g : Grammar) : Grammar.Call → Option Text
  | .parse t dialect => Grammar.breakdown? (g.parse t dialect)
  | .generate n dialect style => Grammar.breakdown? (g.generate n dialect style)
  | .resolveScopes root => Grammar.breakdown? (g.resolveScopes root)

theorem Grammar.Steady.fault?_eq_none {g : Grammar} (steady : g.Steady) (c : Grammar.Call) :
    g.fault? c = none := by
  cases c with
  | parse t dialect =>
    obtain ⟨p, hp⟩ := steady.parse t dialect
    simp [Grammar.fault?, Grammar.breakdown?, hp]
  | generate n dialect style =>
    obtain ⟨t, ht⟩ := steady.generate n dialect style
    simp [Grammar.fault?, Grammar.breakdown?, ht]
  | resolveScopes root =>
    obtain ⟨scopes, hscopes⟩ := steady.resolveScopes root
    simp [Grammar.fault?, Grammar.breakdown?, hscopes]

/-- The question is put in the dialect, if it is put in any. -/
def Grammar.Call.In (dialect : Option Dialect) : Grammar.Call → Prop
  | .parse _ d => d = dialect
  | .generate _ d _ => d = dialect
  | .resolveScopes _ => True

namespace Run

variable {α β : Type}

theorem bind_eq_done {r : Run α} {f : α → Run β} {b : β} :
    (r >>= f).outcome = .done b ↔ ∃ a, r.outcome = .done a ∧ (f a).outcome = .done b := by
  cases h : r.outcome with
  | done a => simp [bind_done h]
  | broken what => simp [bind_broken h]
  | unfinished => simp [bind_unfinished h]

theorem map_eq_done {r : Run α} {f : α → β} {b : β} :
    (f <$> r).outcome = .done b ↔ ∃ a, r.outcome = .done a ∧ f a = b := by
  rw [map_eq]
  cases r.outcome <;> simp [Outcome.map]

/-- A traversal is done when each of its steps is, and gives what the steps give. -/
theorem mapM_eq_done {f : α → Run β} {as : List α} {bs : List β} :
    (as.mapM f).outcome = .done bs ↔ List.Forall₂ (fun a b => (f a).outcome = .done b) as bs := by
  induction as generalizing bs with
  | nil =>
    rw [List.forall₂_nil_left_iff]
    constructor
    · intro h
      exact (Outcome.done.inj h).symm
    · rintro rfl
      rfl
  | cons a as ih =>
    rw [List.mapM_cons, List.forall₂_cons_left_iff, bind_eq_done]
    constructor
    · rintro ⟨b, hb, h⟩
      obtain ⟨rest, hrest, hbs⟩ := bind_eq_done.mp h
      exact ⟨b, rest, hb, ih.mp hrest, (Outcome.done.inj hbs).symm⟩
    · rintro ⟨b, rest, hb, hrest, rfl⟩
      exact ⟨b, hb, bind_eq_done.mpr ⟨rest, ih.mpr hrest, rfl⟩⟩

/-- A fold whose steps are all done goes through the states that they give. -/
theorem foldlM_eq_done {σ : Type} {f : σ → α → Run σ} {g : σ → α → σ} {as : List α}
    (h : ∀ s, ∀ a ∈ as, (f s a).outcome = .done (g s a)) (s : σ) :
    (as.foldlM f s).outcome = .done (as.foldl g s) := by
  induction as generalizing s with
  | nil => rfl
  | cons a as ih =>
    rw [List.foldlM_cons, bind_done (h s a List.mem_cons_self), List.foldl_cons]
    exact ih (fun s b hb => h s b (List.mem_cons_of_mem a hb)) (g s a)

theorem recover_done {r : Run α} {a : α} (h : r.outcome = .done a) (handle : Text → Run α) :
    r.recover handle = r := by
  rw [recover, h]

theorem recover_unfinished {r : Run α} (h : r.outcome = .unfinished) (handle : Text → Run α) :
    r.recover handle = r := by
  rw [recover, h]

theorem recover_broken {r : Run α} {what : Text} (h : r.outcome = .broken what)
    (handle : Text → Run α) :
    r.recover handle = ⟨r.events ++ (handle what).events, (handle what).outcome⟩ := by
  rw [recover, h]

theorem calls_map (f : α → β) (r : Run α) : (f <$> r).calls = r.calls := rfl

theorem calls_ask (c : Grammar.Call) (answer : Except Text α) : (ask c answer).calls = [c] := by
  cases answer <;> rfl

theorem calls_bind_done {r : Run α} {a : α} (h : r.outcome = .done a) (f : α → Run β) :
    (r >>= f).calls = r.calls ++ (f a).calls := by
  rw [bind_done h, calls, List.filterMap_append]
  rfl

theorem calls_bind_stopped {r : Run α} (h : ∀ a, r.outcome ≠ .done a) (f : α → Run β) :
    (r >>= f).calls = r.calls := by
  cases hr : r.outcome with
  | done a => exact absurd hr (h a)
  | broken what => rw [bind_broken hr]; rfl
  | unfinished => rw [bind_unfinished hr]; rfl

/-- A sequence begins with the questions of its first part. -/
theorem calls_prefix_bind (r : Run α) (f : α → Run β) : r.calls <+: (r >>= f).calls := by
  by_cases h : ∃ a, r.outcome = .done a
  · obtain ⟨a, ha⟩ := h
    rw [calls_bind_done ha]
    exact List.prefix_append _ _
  · have hsame := calls_bind_stopped (not_exists.mp h) f
    exact ⟨[], by rw [hsame, List.append_nil]⟩

theorem calls_mapM {f : α → Run β} {as : List α} {bs : List β}
    (h : (as.mapM f).outcome = .done bs) : (as.mapM f).calls = as.flatMap fun a => (f a).calls := by
  induction as generalizing bs with
  | nil => rfl
  | cons a as ih =>
    rw [List.mapM_cons] at h ⊢
    obtain ⟨b, hb, h⟩ := bind_eq_done.mp h
    obtain ⟨rest, hrest, -⟩ := bind_eq_done.mp h
    rw [calls_bind_done hb, bind_pure_comp, calls_map, ih hrest, List.flatMap_cons]

/-- A property of runs that sequencing keeps. -/
structure Law (P : {α : Type} → Run α → Prop) : Prop where
  pure {α : Type} (a : α) : P (pure a : Run α)
  note (level : Level) (text : Text) : P (note level text)
  bind {α β : Type} {r : Run α} {f : α → Run β} :
    P r → (∀ a, r.outcome = .done a → P (f a)) → P (r >>= f)

namespace Law

variable {P : {α : Type} → Run α → Prop} (law : Law P)
include law

theorem map {r : Run α} (h : P r) (f : α → β) : P (f <$> r) := by
  rw [← bind_pure_comp]
  exact law.bind h fun a _ => law.pure (f a)

theorem foldlM {σ : Type} {f : σ → α → Run σ} {as : List α} (h : ∀ s, ∀ a ∈ as, P (f s a)) (s : σ) :
    P (as.foldlM f s) := by
  induction as generalizing s with
  | nil => exact law.pure s
  | cons a as ih =>
    rw [List.foldlM_cons]
    have hrest (s' : σ) : P (as.foldlM f s') :=
      ih (fun t b hb => h t b (List.mem_cons_of_mem a hb)) s'
    exact law.bind (h s a List.mem_cons_self) fun s' _ => hrest s'

theorem mapM {f : α → Run β} {as : List α} (h : ∀ a ∈ as, P (f a)) : P (as.mapM f) := by
  induction as with
  | nil => exact law.pure []
  | cons a as ih =>
    rw [List.mapM_cons]
    have hrest : P (as.mapM f) := ih fun b hb => h b (List.mem_cons_of_mem a hb)
    exact law.bind (h a List.mem_cons_self) fun b _ =>
      law.bind hrest fun bs _ => law.pure (b :: bs)

theorem forM {f : α → Run Unit} {as : List α} (h : ∀ a ∈ as, P (f a)) : P (as.forM f) := by
  induction as with
  | nil => exact law.pure ()
  | cons a as ih =>
    have hrest : P (as.forM f) := ih fun b hb => h b (List.mem_cons_of_mem a hb)
    exact law.bind (h a List.mem_cons_self) fun _ _ => hrest

theorem anyM {f : α → Run Bool} {as : List α} (h : ∀ a ∈ as, P (f a)) : P (as.anyM f) := by
  induction as with
  | nil => exact law.pure false
  | cons a as ih =>
    have hrest : P (as.anyM f) := ih fun b hb => h b (List.mem_cons_of_mem a hb)
    refine law.bind (h a List.mem_cons_self) fun found _ => ?_
    cases found with
    | true => exact law.pure true
    | false => exact hrest

end Law

theorem law_done : Law fun r => ∃ value, r.outcome = .done value where
  pure value := ⟨value, rfl⟩
  note _ _ := ⟨(), rfl⟩
  bind {_ _ r f} hr hf := by
    obtain ⟨value, hvalue⟩ := hr
    obtain ⟨next, hnext⟩ := hf value hvalue
    exact ⟨next, bind_eq_done.mpr ⟨value, hvalue, hnext⟩⟩

theorem law_ends : Law fun r => r.outcome ≠ .unfinished where
  pure _ := by simp [pure_eq]
  note _ _ := by simp [Run.note]
  bind {_ _ r f} hr hf := by
    cases h : r.outcome with
    | done a => simpa [bind_done h] using hf a h
    | broken what => simp [bind_broken h]
    | unfinished => exact absurd h hr

theorem ask_ends (c : Grammar.Call) (answer : Except Text α) : (ask c answer).outcome ≠ .unfinished := by
  cases answer <;> simp [ask]

/-- The breakdowns among the answers are the one that ends the run, if one does. -/
def Faithful (g : Grammar) (r : Run α) : Prop := r.calls.filterMap g.fault? = r.outcome.fault?.toList

theorem law_faithful (g : Grammar) : Law (Faithful g) where
  pure _ := rfl
  note _ _ := rfl
  bind {_ _ r f} hr hf := by
    cases h : r.outcome with
    | done a =>
      have hnone : r.calls.filterMap g.fault? = [] := by simpa [Faithful, h, Outcome.fault?] using hr
      have hrest : (f a).calls.filterMap g.fault? = (f a).outcome.fault?.toList := hf a h
      rw [Faithful, calls_bind_done h, List.filterMap_append, hnone, hrest, bind_done h]
      rfl
    | broken what =>
      have hone : r.calls.filterMap g.fault? = [what] := by
        simpa [Faithful, h, Outcome.fault?] using hr
      rw [Faithful, calls_bind_stopped (by simp [h]), hone, bind_broken h]
      rfl
    | unfinished =>
      have hnone : r.calls.filterMap g.fault? = [] := by simpa [Faithful, h, Outcome.fault?] using hr
      rw [Faithful, calls_bind_stopped (by simp [h]), hnone, bind_unfinished h]
      rfl

theorem faithful_ask {g : Grammar} {c : Grammar.Call} {answer : Except Text α}
    (h : g.fault? c = Grammar.breakdown? answer) : Faithful g (ask c answer) := by
  rw [Faithful, calls_ask]
  cases answer with
  | ok a => simp [ask_ok, h, Grammar.breakdown?, Outcome.fault?]
  | error what => simp [ask_error, h, Grammar.breakdown?, Outcome.fault?]

/-- Only an answer can break a run down, and the run passes on what it says. -/
theorem Faithful.broken_iff {g : Grammar} {r : Run α} (h : Faithful g r) (what : Text) :
    r.outcome = .broken what ↔ ∃ c ∈ r.calls, g.fault? c = some what := by
  rw [← List.mem_filterMap, h]
  cases r.outcome <;> simp [Outcome.fault?, eq_comm]

theorem law_calls (p : Grammar.Call → Prop) : Law fun r => ∀ c ∈ r.calls, p c where
  pure _ _ hc := absurd hc List.not_mem_nil
  note _ _ _ hc := absurd hc List.not_mem_nil
  bind {_ _ r f} hr hf c hc := by
    by_cases h : ∃ a, r.outcome = .done a
    · obtain ⟨a, ha⟩ := h
      rw [calls_bind_done ha, List.mem_append] at hc
      exact hc.elim (hr c) (hf a ha c)
    · rw [calls_bind_stopped (not_exists.mp h)] at hc
      exact hr c hc

theorem forall_calls_ask {p : Grammar.Call → Prop} {c : Grammar.Call} (answer : Except Text α)
    (h : p c) : ∀ c' ∈ (ask c answer).calls, p c' := by
  simpa [calls_ask] using h

end Run

end ScriptVet

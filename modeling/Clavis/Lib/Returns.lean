import Clavis.Lib.InTime

/-!
# What a computation in logical time returns

`Returns m Q w`: started at the moment `w`, the computation returns, and what it returns and the
moment at which it does satisfy `Q`. The rules follow the structure of the computation, so a claim
about a program is taken apart by rewriting, and a loop is an induction with `Returns.bind`.

* `Context.Lasts t` — the context does not end before `t`; a blocking call that is over by then
  returns its own result (`call_of_lasts`).
* `Context.sleep` — a timer that a context may cut short.
-/

namespace Clavis.Lib

variable {S T U : Type}

namespace InTime

def Returns (m : InTime S T) (Q : T → Moment S → Prop) (w : Moment S) : Prop :=
  ∃ r, m w = some r ∧ Q r.1 r.2

section Rules

variable {m : InTime S T} {f : T → InTime S U} {Q Q' : T → Moment S → Prop}
  {R : U → Moment S → Prop} {w : Moment S}

theorem Returns.imp (h : Returns m Q w) (hQ : ∀ a w', Q a w' → Q' a w') : Returns m Q' w := by
  obtain ⟨r, hr, hq⟩ := h
  exact ⟨r, hr, hQ r.1 r.2 hq⟩

/-- What is returned is what the computation yields. -/
theorem Returns.and_eq (h : Returns m Q w) :
    Returns m (fun a w' => Q a w' ∧ m w = some (a, w')) w := by
  obtain ⟨r, hr, hq⟩ := h
  exact ⟨r, hr, hq, hr⟩

theorem returns_pure {a : T} : Returns (pure a) Q w ↔ Q a w := by
  constructor
  · rintro ⟨r, hr, hq⟩
    cases hr
    exact hq
  · exact fun hq => ⟨_, rfl, hq⟩

theorem Returns.bind (h : Returns m Q w) (hf : ∀ a w', Q a w' → Returns (f a) R w') :
    Returns (m >>= f) R w := by
  obtain ⟨r₁, h₁, hq⟩ := h
  obtain ⟨r, hr, hR⟩ := hf r₁.1 r₁.2 hq
  exact ⟨r, bind_eq_some.mpr ⟨r₁, h₁, hr⟩, hR⟩

theorem returns_now_bind {f : Int → InTime S U} :
    Returns (now >>= f) R w ↔ Returns (f w.time) R w := Iff.rfl

theorem returns_read_bind {g : S → T} : Returns (read g >>= f) R w ↔ Returns (f (g w.state)) R w :=
  Iff.rfl

theorem returns_update_bind {g : S → S} {f : Unit → InTime S U} :
    Returns (update g >>= f) R w ↔ Returns (f ()) R { w with state := g w.state } := Iff.rfl

theorem returns_await {event : Int → Option (Int × T)} {e : Int × T}
    (he : event w.time = some e) (hq : Q e.2 { w with time := e.1 }) :
    Returns (await event) Q w :=
  ⟨(e.2, { w with time := e.1 }), by rw [await, he]; rfl, hq⟩

end Rules

end InTime

namespace Context

/-- The context does not end before `t`. -/
def Lasts (t : Int) (ctx : Context) : Prop := ∀ e ∈ ctx.ends, t ≤ e.1

variable {ctx : Context} {limit t now : Int}

theorem err_of_lasts (h : ctx.Lasts t) (hnow : now < t) : ctx.err now = none := by
  unfold err
  cases hends : ctx.ends with
  | none => rfl
  | some e =>
    have hle := h e hends
    exact if_neg (by omega)

theorem exists_err {e : Int × ContextErr} (hdone : ctx.done now = some e) :
    ctx.err e.1 = some e.2 := by
  obtain ⟨e', hends, rfl⟩ := Option.map_eq_some_iff.mp hdone
  rw [err, hends]
  exact if_pos (le_max_right _ _)

theorem Lasts.withTimeout (h : ctx.Lasts t) {timeout : Int} (ht : t ≤ now + timeout) :
    (ctx.withTimeout now timeout).Lasts t := by
  intro e he
  unfold Context.withTimeout at he
  split at he
  · split at he
    · exact h e he
    · cases he
      exact ht
  · cases he
    exact ht

variable {c : Blocking T} {cut : ContextErr → T}

/-- A blocking call under a context that ends returns by then. -/
theorem exists_call (h : ctx.EndsBy limit) (c : Blocking T) (cut : ContextErr → T)
    (hnow : now ≤ limit) : ∃ e, ctx.call c cut now = some e ∧ now ≤ e.1 ∧ e.1 ≤ limit := by
  have htimely : InTime.Timely (S := Unit) limit (InTime.await (ctx.call c cut)) := timely_call h
  obtain ⟨r, hr, hle⟩ := htimely.endsBy ⟨now, ()⟩ hnow
  obtain ⟨e, he, rfl⟩ := Option.map_eq_some_iff.mp hr
  exact ⟨e, he, le_call now e he, hle⟩

/-- What a blocking call returns is its result, or it was cut. -/
theorem call_cases {e : Int × T} (h : ctx.call c cut now = some e) :
    e.2 = c.result ∨ ∃ err, e.2 = cut err := by
  unfold call at h
  split at h
  · cases h
    exact Or.inr ⟨_, rfl⟩
  · split at h
    · cases h
      exact Or.inl rfl
    · split at h
      · cases h
        exact Or.inl rfl
      · cases h
        exact Or.inr ⟨_, rfl⟩
    · cases h
      exact Or.inr ⟨_, rfl⟩
    · cases h

/-- A call that is over before its context returns its own result. -/
theorem call_of_lasts (hnow : ctx.err now = none) (h : ctx.Lasts t) {d : Nat}
    (hafter : c.after = some d) (hd : now + d ≤ t) :
    ctx.call c cut now = some (now + d, c.result) := by
  rw [call, hnow, hafter]
  cases hdone : ctx.done now with
  | none => rfl
  | some e =>
    obtain ⟨e', hends, rfl⟩ := Option.map_eq_some_iff.mp hdone
    have hle := h e' hends
    exact if_pos ((hd.trans hle).trans (le_max_right _ _))

/-! ## Sleeping -/

/-- The `select` between a timer of `d` and the end of the context, begun at `now`: when it is over,
and the context's error if that is what ended it. -/
def timer (ctx : Context) (pick : Nat) (d now : Int) : Int × Option ContextErr :=
  select pick (now + d, none) ((ctx.done now).map fun e => (e.1, some e.2)).toList

def sleep (ctx : Context) (pick : Nat) (d : Int) : InTime S (Option ContextErr) :=
  InTime.await fun now => some (ctx.timer pick d now)

/-- A timer runs for its time, or until the context ends. -/
theorem timer_cases (ctx : Context) (pick : Nat) (d now : Int) :
    ctx.timer pick d now = (now + d, none) ∨
    ∃ e, ctx.done now = some e ∧ e.1 ≤ now + d ∧ ctx.timer pick d now = (e.1, some e.2) := by
  obtain ⟨hmem, hfirst⟩ := select_spec pick (now + d, none)
    ((ctx.done now).map fun e => (e.1, some e.2)).toList
  rcases List.mem_cons.mp hmem with heq | hdone
  · exact Or.inl heq
  · obtain ⟨e, he, heq⟩ := Option.map_eq_some_iff.mp (Option.mem_toList.mp hdone)
    refine Or.inr ⟨e, he, ?_, heq.symm⟩
    have hle := hfirst _ List.mem_cons_self
    rw [← heq] at hle
    exact hle

/-- **A sleep** under a context that ends by `limit`: it is over by `limit`, and either it has taken
its time or the context has ended. -/
theorem returns_sleep (h : ctx.EndsBy limit) {w : Moment S} (hw : w.time ≤ limit) {d : Int}
    (hd : 0 ≤ d) (pick : Nat) :
    (ctx.sleep pick d).Returns (fun cause w' => w'.state = w.state ∧ w.time ≤ w'.time ∧
      w'.time ≤ limit ∧ (cause = none → w'.time = w.time + d) ∧
      ∀ err ∈ cause, ctx.err w'.time = some err) w := by
  refine InTime.returns_await rfl ⟨rfl, ?_⟩
  obtain ⟨e, hdone, hle⟩ := h.done hw
  have hfirst : (ctx.timer pick d w.time).1 ≤ e.1 := by
    refine (select_spec pick _ _).2 (e.1, some e.2) (List.mem_cons_of_mem _ ?_)
    rw [hdone]
    exact List.mem_singleton.mpr rfl
  rcases ctx.timer_cases pick d w.time with heq | ⟨e', hdone', -, heq⟩
  · rw [heq] at hfirst ⊢
    exact ⟨by show w.time ≤ w.time + d; omega, hfirst.trans hle, fun _ => rfl, nofun⟩
  · cases hdone.symm.trans hdone'
    rw [heq]
    refine ⟨le_done hdone, hle, nofun, ?_⟩
    rintro err ⟨⟩
    exact exists_err hdone

/-- While the context lasts, a sleep takes its time. -/
theorem returns_sleep_of_lasts (h : ctx.Lasts t) {w : Moment S} {d : Int} (hd : w.time + d < t)
    (pick : Nat) :
    (ctx.sleep pick d).Returns
      (fun cause w' => cause = none ∧ w' = { w with time := w.time + d }) w := by
  refine InTime.returns_await rfl ?_
  rcases ctx.timer_cases pick d w.time with heq | ⟨e, hdone, hle, -⟩
  · rw [heq]
    exact ⟨rfl, rfl⟩
  · -- the context ends no earlier than `t`, which is after the timer
    obtain ⟨e', hends, rfl⟩ := Option.map_eq_some_iff.mp hdone
    have hlast := h e' hends
    have hmax : e'.1 ≤ max w.time e'.1 := le_max_right _ _
    have hle' : max w.time e'.1 ≤ w.time + d := hle
    omega

end Context

end Clavis.Lib

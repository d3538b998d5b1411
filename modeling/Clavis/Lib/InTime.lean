import Mathlib.Order.MinMax
import Mathlib.Data.List.GetD

/-!
# Computations in logical time

A computation of type `InTime S T` works on a state `S`, takes time and may never return. What takes
time is `await`; a blocking call is awaited under a `Context`, which cuts it off when it ends.

* `EndsBy limit m w` — started at `w`, the computation returns, and no later than `limit`.
* `Forward m` — it does not return before it was started.
* `Timely limit m` — started no later than `limit`, it returns, and no later than `limit`. A
  blocking call is timely for the end of its context (`timely_call`), and the property composes
  (`Timely.bind`).
* `endsBy_bind_iff` — what is followed by timely computations only decides when the whole ends.
-/

namespace Clavis.Lib

variable {S T U : Type}

/-- A point in time, and the state at it. -/
structure Moment (S : Type) where
  time : Int
  state : S
deriving DecidableEq

/-- A computation that takes time; `none` is one that never returns. -/
abbrev InTime (S : Type) : Type → Type := StateT (Moment S) Option

namespace InTime

/-- The time. -/
def now : InTime S Int := fun w => some (w.time, w)

/-- Something read from the state. -/
def read (f : S → T) : InTime S T := fun w => some (f w.state, w)

def update (f : S → S) : InTime S Unit := fun w => some ((), { w with state := f w.state })

/-- Wait for an event, which may depend on when the wait begins. -/
def await (event : Int → Option (Int × T)) : InTime S T := fun w =>
  (event w.time).map fun e => (e.2, { w with time := e.1 })

/-! ## Rules -/

def EndsBy (limit : Int) (m : InTime S T) (w : Moment S) : Prop :=
  ∃ r, m w = some r ∧ r.2.time ≤ limit

def Forward (m : InTime S T) : Prop := ∀ w r, m w = some r → w.time ≤ r.2.time

structure Timely (limit : Int) (m : InTime S T) : Prop where
  forward : Forward m
  endsBy : ∀ w, w.time ≤ limit → EndsBy limit m w

section Rules

variable {limit : Int} {m : InTime S T} {f : T → InTime S U} {w : Moment S}

theorem bind_eq_some {r : U × Moment S} :
    (m >>= f) w = some r ↔ ∃ r₁, m w = some r₁ ∧ f r₁.1 r₁.2 = some r :=
  Option.bind_eq_some_iff

theorem forward_await {event : Int → Option (Int × T)}
    (hevent : ∀ t e, event t = some e → t ≤ e.1) : Forward (S := S) (await event) := by
  intro w r hr
  obtain ⟨e, he, rfl⟩ := Option.map_eq_some_iff.mp hr
  exact hevent w.time e he

theorem Forward.bind (hm : Forward m) (hf : ∀ a, Forward (f a)) : Forward (m >>= f) := by
  intro w r hr
  obtain ⟨r₁, h₁, h₂⟩ := bind_eq_some.mp hr
  exact (hm w r₁ h₁).trans (hf r₁.1 r₁.2 r h₂)

/-- A computation that takes no time. -/
theorem timely_of_instant (hm : ∀ w, ∃ r, m w = some r ∧ r.2.time = w.time) : Timely limit m where
  forward := by
    intro w r hr
    obtain ⟨r', hr', htime⟩ := hm w
    cases hr.symm.trans hr'
    exact htime.ge
  endsBy := by
    intro w hw
    obtain ⟨r, hr, htime⟩ := hm w
    exact ⟨r, hr, htime.trans_le hw⟩

theorem timely_pure (a : T) : Timely limit (pure a : InTime S T) :=
  timely_of_instant fun _ => ⟨_, rfl, rfl⟩

theorem timely_now : Timely limit (now : InTime S Int) :=
  timely_of_instant fun _ => ⟨_, rfl, rfl⟩

theorem timely_read (g : S → T) : Timely limit (read g) :=
  timely_of_instant fun _ => ⟨_, rfl, rfl⟩

theorem timely_update (g : S → S) : Timely limit (update g) :=
  timely_of_instant fun _ => ⟨_, rfl, rfl⟩

theorem timely_await {event : Int → Option (Int × T)}
    (hforward : ∀ t e, event t = some e → t ≤ e.1)
    (hevent : ∀ t ≤ limit, ∃ e, event t = some e ∧ e.1 ≤ limit) :
    Timely (S := S) limit (await event) where
  forward := forward_await hforward
  endsBy := by
    intro w hw
    obtain ⟨e, he, hle⟩ := hevent w.time hw
    exact ⟨(e.2, { w with time := e.1 }), by rw [await, he]; rfl, hle⟩

theorem Timely.bind (hm : Timely limit m) (hf : ∀ a, Timely limit (f a)) :
    Timely limit (m >>= f) where
  forward := hm.forward.bind fun a => (hf a).forward
  endsBy := by
    intro w hw
    obtain ⟨r₁, h₁, hle₁⟩ := hm.endsBy w hw
    obtain ⟨r, hr, hle⟩ := (hf r₁.1).endsBy r₁.2 hle₁
    exact ⟨r, bind_eq_some.mpr ⟨r₁, h₁, hr⟩, hle⟩

/-- **What comes before timely computations decides.** -/
theorem endsBy_bind_iff (hf : ∀ a, Timely limit (f a)) :
    EndsBy limit (m >>= f) w ↔ EndsBy limit m w := by
  constructor
  · rintro ⟨r, hr, hle⟩
    obtain ⟨r₁, h₁, h₂⟩ := bind_eq_some.mp hr
    exact ⟨r₁, h₁, ((hf r₁.1).forward r₁.2 r h₂).trans hle⟩
  · rintro ⟨r₁, h₁, hle₁⟩
    obtain ⟨r, hr, hle⟩ := (hf r₁.1).endsBy r₁.2 hle₁
    exact ⟨r, bind_eq_some.mpr ⟨r₁, h₁, hr⟩, hle⟩

/-- After a computation whose result is known the rest decides. -/
theorem endsBy_bind_of_eq {r₁ : T × Moment S} (h : m w = some r₁) :
    EndsBy limit (m >>= f) w ↔ EndsBy limit (f r₁.1) r₁.2 := by
  constructor
  · rintro ⟨r, hr, hle⟩
    obtain ⟨r', h', h₂⟩ := bind_eq_some.mp hr
    cases h.symm.trans h'
    exact ⟨r, h₂, hle⟩
  · rintro ⟨r, hr, hle⟩
    exact ⟨r, bind_eq_some.mpr ⟨r₁, h, hr⟩, hle⟩

theorem Forward.time_le (hm : Forward m) (h : EndsBy limit m w) : w.time ≤ limit := by
  obtain ⟨r, hr, hle⟩ := h
  exact (hm w r hr).trans hle

end Rules

end InTime

/-! ## Contexts -/

inductive ContextErr where
  | canceled
  | deadlineExceeded
deriving DecidableEq

/-- A context, given by when and why it ends, if it ever does. -/
structure Context where
  ends : Option (Int × ContextErr)
deriving DecidableEq

/-- A blocking call: how long it takes if it is let, and what it then returns. -/
structure Blocking (T : Type) where
  after : Option Nat
  result : T

namespace Context

/-- `context.WithTimeout`. -/
def withTimeout (ctx : Context) (now timeout : Int) : Context :=
  match ctx.ends with
  | some (e, _) => if e ≤ now + timeout then ctx else ⟨some (now + timeout, .deadlineExceeded)⟩
  | none => ⟨some (now + timeout, .deadlineExceeded)⟩

/-- When the context is done for one who starts to look at `now`. -/
def done (ctx : Context) (now : Int) : Option (Int × ContextErr) :=
  ctx.ends.map fun e => (max now e.1, e.2)

/-- `ctx.Err()` at a time. -/
def err (ctx : Context) (now : Int) : Option ContextErr :=
  ctx.ends.bind fun e => if e.1 ≤ now then some e.2 else none

/-- When a blocking call that is made at `now` returns, and what; `cut` is what it returns when the
context has ended before or ends first. -/
def call (ctx : Context) (c : Blocking T) (cut : ContextErr → T) (now : Int) : Option (Int × T) :=
  match ctx.err now with
  | some err => some (now, cut err)
  | none =>
    match c.after, ctx.done now with
    | some d, none => some (now + d, c.result)
    | some d, some (e, err) =>
      if now + d ≤ e then some (now + d, c.result) else some (e, cut err)
    | none, some (e, err) => some (e, cut err)
    | none, none => none

/-- The context ends, by `limit`. -/
def EndsBy (limit : Int) (ctx : Context) : Prop := ∃ e ∈ ctx.ends, e.1 ≤ limit

variable {ctx : Context} {limit : Int}

theorem endsBy_withTimeout (ctx : Context) (now timeout : Int) :
    (ctx.withTimeout now timeout).EndsBy (now + timeout) := by
  unfold withTimeout
  split
  · rename_i e _ hends
    split
    · rename_i hle
      exact ⟨_, hends, hle⟩
    · exact ⟨_, rfl, le_rfl⟩
  · exact ⟨_, rfl, le_rfl⟩

/-- A context made from another one ends with it at the latest. -/
theorem EndsBy.withTimeout (h : ctx.EndsBy limit) (now timeout : Int) :
    (ctx.withTimeout now timeout).EndsBy limit := by
  obtain ⟨⟨e, err⟩, hends, hle⟩ := h
  rw [Option.mem_def] at hends
  simp only [Context.withTimeout, hends]
  split
  · exact ⟨_, hends, hle⟩
  · rename_i hlt
    exact ⟨_, rfl, (not_le.mp hlt).le.trans hle⟩

/-- A context that has ended has an error. -/
theorem err_ne_none_iff {now : Int} : ctx.err now ≠ none ↔ ctx.EndsBy now := by
  constructor
  · intro h
    obtain ⟨cause, hcause⟩ := Option.ne_none_iff_exists'.mp h
    obtain ⟨e, hends, hsome⟩ := Option.bind_eq_some_iff.mp hcause
    exact ⟨e, hends, (Option.ite_none_right_eq_some.mp hsome).1⟩
  · rintro ⟨e, hends, hle⟩
    rw [err, hends, Option.bind_some, if_pos hle]
    exact Option.some_ne_none _

theorem err_withTimeout {now timeout : Int} (h : ctx.err now = none) (htimeout : 0 < timeout) :
    (ctx.withTimeout now timeout).err now = none := by
  have hnew : err ⟨some (now + timeout, .deadlineExceeded)⟩ now = none := if_neg (by omega)
  unfold withTimeout
  split
  · split
    · exact h
    · exact hnew
  · exact hnew

theorem le_done {now : Int} {e : Int × ContextErr} (h : ctx.done now = some e) : now ≤ e.1 := by
  obtain ⟨_, -, rfl⟩ := Option.map_eq_some_iff.mp h
  exact le_max_left _ _

theorem EndsBy.done (h : ctx.EndsBy limit) {now : Int} (hnow : now ≤ limit) :
    ∃ e, ctx.done now = some e ∧ e.1 ≤ limit := by
  obtain ⟨e, hends, hle⟩ := h
  exact ⟨(max now e.1, e.2), by rw [Context.done, hends]; rfl, max_le hnow hle⟩

variable {c : Blocking T} {cut : ContextErr → T}

theorem le_call (now : Int) (r : Int × T) (h : ctx.call c cut now = some r) : now ≤ r.1 := by
  unfold call at h
  split at h
  · cases h
    exact le_rfl
  · split at h
    · cases h
      exact Int.le_add_of_nonneg_right (Int.natCast_nonneg _)
    · rename_i hdone
      split at h
      · cases h
        exact Int.le_add_of_nonneg_right (Int.natCast_nonneg _)
      · cases h
        exact le_done hdone
    · rename_i hdone
      cases h
      exact le_done hdone
    · cases h

theorem call_of_err {now : Int} {cause : ContextErr} (h : ctx.err now = some cause) :
    ctx.call c cut now = some (now, cut cause) := by
  rw [call, h]

/-- A call that is answered at once. -/
theorem call_of_instant {now : Int} (h : ctx.err now = none) (hafter : c.after = some 0) :
    ctx.call c cut now = some (now, c.result) := by
  rw [call, h, hafter]
  cases hdone : ctx.done now with
  | none => simp
  | some e =>
    have hle := le_done hdone
    simp [hle]

/-- A call that is not answered returns when its context has ended. -/
theorem endsBy_of_call {now : Int} {r : Int × T} (hafter : c.after = none)
    (h : ctx.call c cut now = some r) : ctx.EndsBy r.1 := by
  unfold call at h
  split at h
  · rename_i cause hcause
    cases h
    exact err_ne_none_iff.mp (hcause ▸ Option.some_ne_none cause)
  · rw [hafter] at h
    cases hends : ctx.ends with
    | none => simp [done, hends] at h
    | some e =>
      simp only [done, hends, Option.map_some] at h
      cases h
      exact ⟨e, hends, le_max_right _ _⟩

/-- **A blocking call returns by the end of its context.** -/
theorem timely_call (h : ctx.EndsBy limit) :
    InTime.Timely (S := S) limit (InTime.await (ctx.call c cut)) := by
  refine InTime.timely_await le_call fun now hnow => ?_
  obtain ⟨e, hdone, hle⟩ := h.done hnow
  unfold call
  split
  · exact ⟨_, rfl, hnow⟩
  · rw [hdone]
    cases hafter : c.after with
    | none => exact ⟨_, rfl, hle⟩
    | some d =>
      simp only
      split
      · rename_i hin
        exact ⟨_, rfl, hin.trans hle⟩
      · exact ⟨_, rfl, hle⟩

end Context

/-! ## Waiting for one of several events -/

/-- When the first of several events comes. -/
def earliest (event : Int × T) (events : List (Int × T)) : Int :=
  events.foldl (fun t e => min t e.1) event.1

/-- The events that come first. -/
def ready (event : Int × T) (events : List (Int × T)) : List (Int × T) :=
  (event :: events).filter (·.1 = earliest event events)

/-- A `select` over events at given times: it takes one of those that come first, and of several at
the same time any (`pick`). -/
def select (pick : Nat) (event : Int × T) (events : List (Int × T)) : Int × T :=
  (ready event events).getD (pick % (ready event events).length) event

theorem earliest_le (event : Int × T) (events : List (Int × T)) :
    ∀ e ∈ event :: events, earliest event events ≤ e.1 := by
  have hfoldl : ∀ t : Int, events.foldl (fun t e => min t e.1) t ≤ t ∧
      ∀ e ∈ events, events.foldl (fun t e => min t e.1) t ≤ e.1 := by
    induction events with
    | nil => simp
    | cons e events ih =>
      intro t
      rw [List.foldl_cons]
      obtain ⟨hstart, hrest⟩ := ih (min t e.1)
      refine ⟨hstart.trans (min_le_left _ _), fun e' he' => ?_⟩
      rcases List.mem_cons.mp he' with rfl | hmem
      · exact hstart.trans (min_le_right _ _)
      · exact hrest e' hmem
  intro e he
  rcases List.mem_cons.mp he with rfl | hmem
  · exact (hfoldl e.1).1
  · exact (hfoldl event.1).2 e hmem

theorem exists_earliest (event : Int × T) (events : List (Int × T)) :
    ∃ e ∈ event :: events, e.1 = earliest event events := by
  induction events generalizing event with
  | nil => exact ⟨event, List.mem_cons_self, rfl⟩
  | cons e events ih =>
    -- the earlier of the first two stands for both
    rcases min_choice event.1 e.1 with hmin | hmin
    · obtain ⟨e', he', htime⟩ := ih event
      refine ⟨e', ?_, ?_⟩
      · rcases List.mem_cons.mp he' with rfl | hmem
        · exact List.mem_cons_self
        · exact List.mem_cons_of_mem _ (List.mem_cons_of_mem _ hmem)
      · rw [htime, earliest, earliest, List.foldl_cons, hmin]
    · obtain ⟨e', he', htime⟩ := ih e
      refine ⟨e', List.mem_cons_of_mem _ he', ?_⟩
      rw [htime, earliest, earliest, List.foldl_cons, hmin]

/-- What a `select` takes is one of its events, and no other comes before it. -/
theorem select_spec (pick : Nat) (event : Int × T) (events : List (Int × T)) :
    select pick event events ∈ event :: events ∧
      ∀ e ∈ event :: events, (select pick event events).1 ≤ e.1 := by
  have hpos : 0 < (ready event events).length := by
    obtain ⟨e, he, htime⟩ := exists_earliest event events
    exact List.length_pos_of_mem (List.mem_filter.mpr ⟨he, decide_eq_true htime⟩)
  have hmem : select pick event events ∈ ready event events := by
    rw [select, List.getD_eq_getElem _ _ (Nat.mod_lt pick hpos)]
    exact List.getElem_mem _
  obtain ⟨hin, htime⟩ := List.mem_filter.mp hmem
  refine ⟨hin, fun e he => ?_⟩
  rw [of_decide_eq_true htime]
  exact earliest_le event events e he

end Clavis.Lib

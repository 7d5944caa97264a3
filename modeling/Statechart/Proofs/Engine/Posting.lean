import Statechart.Proofs.Engine.Recording

/-!
# Hosts that post

What the calls of a host keep, its scripts keep (`Call.Keeps.react`). From this:

* `Host.Only.posts`: on an action, a host that only posts adds to the queue what it records, and
  changes nothing else of the engine;
* `Host.Only.respects_moves`: over a whole step, a host that posts and ticks adds to the queue
  what it records, and changes nothing that `Engine.rollBack` could not take back but the clock.
-/

namespace Statechart

variable {σ π ε α : Type}

/-! ## What scripts keep -/

section Beside

variable {β : Type} {allowed : Call π → Prop} {R : World (σ × β) π → World (σ × β) π → Prop}
  {note : Call π → Except (Fault ε) (Reply π) → β → β}
  {call : Call π → Run (σ × β) π ε (Reply π)}

/-- What each of its calls keeps, with its note added to what stands beside the host's state, a
script with that beside it keeps. -/
theorem Script.Only.ends_beside (hhost : ∀ w s, R w ⟨w.engine, (s, w.host.2)⟩)
    (htrans : ∀ {u v w}, R u v → R v w → R u w)
    (hcall : ∀ c w, allowed c →
      Ends (call c) w (fun r v => R w ⟨v.engine, (v.host.1, note c (.ok r) v.host.2)⟩)
        fun f v => R w ⟨v.engine, (v.host.1, note c (.error f) v.host.2)⟩)
    {s : Script σ π ε} (hs : s.Only allowed) (b : β) (w : World (σ × β) π) :
    Ends ((s.beside note b).run call) w (fun _ v => R ⟨w.engine, (w.host.1, b)⟩ v)
      fun _ v => R ⟨w.engine, (w.host.1, b)⟩ v := by
  induction s generalizing b w with
  | done s => exact hhost ⟨w.engine, (w.host.1, b)⟩ s
  | fail f s => exact hhost ⟨w.engine, (w.host.1, b)⟩ s
  | look next ih => exact ih w.engine (hs w.engine) b w
  | call s c next ih =>
    -- what the script that goes on has beside it stands in the script, not yet in the world
    have hgo : ∀ (v : World (σ × β) π) r,
        R ⟨w.engine, (s, b)⟩ ⟨v.engine, (v.host.1, note c r v.host.2)⟩ →
        Ends (((next v.host.1 r).beside note (note c r v.host.2)).run call) v
          (fun _ u => R ⟨w.engine, (w.host.1, b)⟩ u) fun _ u => R ⟨w.engine, (w.host.1, b)⟩ u := by
      intro v r hv
      have hbefore := htrans (hhost ⟨w.engine, (w.host.1, b)⟩ s) hv
      exact (ih v.host.1 r (hs.2 v.host.1 r) _ v).mono
        (fun _ _ hu => htrans hbefore hu) fun _ _ hu => htrans hbefore hu
    exact ends_script_call.2 ((hcall c { w with host := (s, b) } hs.1).mono
      (fun r v hv => hgo v (.ok r) hv) fun f v hv => hgo v (.error f) hv)

end Beside

/-- The world with another record. -/
def World.withRecord (w : World (σ × List (PendingEvent π)) π) (l : List (PendingEvent π)) :
    World (σ × List (PendingEvent π)) π := ⟨w.engine, (w.host.1, l)⟩

/-- The world with what a call has posted added to the record. -/
def Call.note (c : Call π) (r : Except (Fault ε) (Reply π))
    (w : World (σ × List (PendingEvent π)) π) : World (σ × List (PendingEvent π)) π :=
  w.withRecord (w.host.2 ++ c.posted r)

/-- The relation holds between the world before and after each of the given calls, whatever the
state of the host. -/
structure Call.Keeps (ε : Type) (allowed : Call π → Prop)
    (R : World (σ × List (PendingEvent π)) π → World (σ × List (PendingEvent π)) π → Prop) :
    Prop where
  host : ∀ w s, R w ⟨w.engine, (s, w.host.2)⟩
  trans : ∀ {u v w}, R u v → R v w → R u w
  call : ∀ c (env : Option (Environment _ π ε)) w, allowed c →
    Ends (c.run env) w (fun r v => R w (c.note (.ok r : Except (Fault ε) (Reply π)) v))
      fun f v => R w (c.note (.error f) v)

namespace Call.Keeps

variable {allowed : Call π → Prop}
  {R : World (σ × List (PendingEvent π)) π → World (σ × List (PendingEvent π)) π → Prop}

theorem script (hR : Call.Keeps ε allowed R) (env : Option (Environment _ π ε)) {s : Script σ π ε}
    (hs : s.Only allowed) (l : List (PendingEvent π)) (w : World (σ × List (PendingEvent π)) π) :
    Ends ((s.recorded l).run (Call.run env)) w (fun _ v => R (w.withRecord l) v)
      fun _ v => R (w.withRecord l) v := by
  rw [s.recorded_eq_beside l]
  exact hs.ends_beside hR.host hR.trans (fun c w hc => hR.call c env w hc) l w

theorem react (hR : Call.Keeps ε allowed R) {h : Host σ π ε} (hh : h.Only allowed) (depth : Nat)
    (a : String) (w : World (σ × List (PendingEvent π)) π) :
    Ends ((h.recorded.environment depth).react a) w (fun _ v => R w v) fun _ v => R w v := by
  cases depth with
  | zero => exact hR.script none (hh a w.host.1) w.host.2 w
  | succ depth => exact hR.script (some _) (hh a w.host.1) w.host.2 w

end Call.Keeps

/-! ## Hosts that only post -/

/-- The queue has grown by what the record has grown by, and the engine is otherwise the same. -/
def Posts (w v : World (σ × List (PendingEvent π)) π) : Prop :=
  ∃ posted, v.engine = { w.engine with queue := w.engine.queue ++ posted } ∧
    v.host.2 = w.host.2 ++ posted

theorem Posts.of_eq {w v : World (σ × List (PendingEvent π)) π} (hengine : v.engine = w.engine)
    (hrecord : v.host.2 = w.host.2) : Posts w v :=
  ⟨[], by simp [hengine], by simp [hrecord]⟩

theorem Posts.trans {u v w : World (σ × List (PendingEvent π)) π} (huv : Posts u v)
    (hvw : Posts v w) : Posts u w := by
  obtain ⟨posted, hv, hlv⟩ := huv
  obtain ⟨posted', hw, hlw⟩ := hvw
  exact ⟨posted ++ posted', by simp [hw, hv], by simp [hlw, hlv]⟩

theorem posts_call {c : Call π} (hc : c.IsPost)
    (env : Option (Environment (σ × List (PendingEvent π)) π ε))
    (w : World (σ × List (PendingEvent π)) π) :
    Ends (c.run env) w
      (fun r v => Posts w (c.note (.ok r : Except (Fault ε) (Reply π)) v))
      fun f v => Posts w (c.note (.error f) v) := by
  cases c with
  | post name payload =>
    simp only [Call.run, ends_bind, Engine.ends_postEvent, ends_pure]
    cases w.engine.machine with
    | none => exact .of_eq rfl (List.append_nil _)
    | some m => exact ⟨[⟨name, payload, none⟩], rfl, rfl⟩
  | _ => exact hc.elim

theorem keeps_posts : Call.Keeps ε Call.IsPost (Posts (σ := σ) (π := π)) where
  host _ _ := .of_eq rfl rfl
  trans := .trans
  call _ env w hc := posts_call hc env w

/-- On an action, a host that only posts adds to the queue what it records, and changes nothing
else of the engine. -/
theorem Host.Only.posts {h : Host σ π ε} (hh : h.Only Call.IsPost) (depth : Nat) (a : String)
    (w : World (σ × List (PendingEvent π)) π) :
    Ends ((h.recorded.environment depth).react a) w (fun _ v => Posts w v) fun _ v => Posts w v :=
  keeps_posts.react hh depth a w

/-! ## Hosts that post and tick -/

/-- The queue has grown by what the record has grown by, and the machine, the status, the trace
and what is told about it are the same. -/
def Moves (w v : World (σ × List (PendingEvent π)) π) : Prop :=
  ∃ posted current timers timerSequence sequence clock,
    v.engine = { w.engine with
      queue := w.engine.queue ++ posted, current, timers, timerSequence, sequence, clock } ∧
    v.host.2 = w.host.2 ++ posted

theorem Posts.moves {w v : World (σ × List (PendingEvent π)) π} (h : Posts w v) : Moves w v := by
  obtain ⟨posted, hv, hl⟩ := h
  exact ⟨posted, _, _, _, _, _, hv, hl⟩

theorem Moves.trans {u v w : World (σ × List (PendingEvent π)) π} (huv : Moves u v)
    (hvw : Moves v w) : Moves u w := by
  obtain ⟨posted, _, _, _, _, _, hv, hlv⟩ := huv
  obtain ⟨posted', current, timers, timerSequence, sequence, clock, hw, hlw⟩ := hvw
  exact ⟨posted ++ posted', current, timers, timerSequence, sequence, clock, by simp [hw, hv],
    by simp [hlw, hlv]⟩

theorem keeps_moves : Call.Keeps ε Call.IsPostOrTick (Moves (σ := σ) (π := π)) where
  host _ _ := (Posts.of_eq rfl rfl).moves
  trans := .trans
  call c env w hc := by
    cases c with
    | post name payload =>
      exact (posts_call (c := .post name payload) trivial env w).mono
        (fun _ _ hv => hv.moves) fun _ _ hv => hv.moves
    | tick elapsed =>
      simp only [Call.run, ends_map, Engine.ends_tick]
      have hsame : Posts w (w.withRecord (w.host.2 ++ [])) := .of_eq rfl (List.append_nil _)
      cases w.engine.machine with
      | none => exact hsame.moves
      | some m =>
        by_cases he : elapsed.getD Engine.defaultTick < 0
        · simp only [he, if_true]
          exact hsame.moves
        · simp only [he, if_false]
          exact ⟨_, _, _, _, _, _, rfl, rfl⟩
    | _ => exact hc.elim

/-- Over a step, a host that posts and ticks adds to the queue what it records. -/
theorem Host.Only.respects_moves {h : Host σ π ε} (hh : h.Only Call.IsPostOrTick)
    (depth : Nat) : Engine.Respects (h.recorded.environment depth) Moves where
  refl _ := (Posts.of_eq rfl rfl).moves
  trans := .trans
  react := keeps_moves.react hh depth
  guard text event payload w := by
    cases depth <;> exact (Posts.of_eq rfl rfl).moves
  progress w _ _ _ _ := ⟨[], _, _, _, _, _, by rw [List.append_nil], (List.append_nil _).symm⟩

/-- Over a step, a host that only posts leaves the clock alone. -/
theorem Host.Only.respects_clock {h : Host σ π ε} (hh : h.Only Call.IsPost) (depth : Nat) :
    Engine.Respects (h.recorded.environment depth) fun w v => v.engine.clock = w.engine.clock where
  refl _ := rfl
  trans huv hvw := hvw.trans huv
  react a w := by
    have hclock : ∀ v, Posts w v → v.engine.clock = w.engine.clock := by
      rintro v ⟨posted, hv, -⟩
      rw [hv]
    exact (hh.posts depth a w).mono (fun _ v hv => hclock v hv) fun _ v hv => hclock v hv
  guard _ _ _ _ := rfl
  progress _ _ _ _ _ := rfl

end Statechart

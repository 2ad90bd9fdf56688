import Mathlib.Data.List.Nodup
import Spigeon.Lib.Lists
import Spigeon.Lib.Lts
import Spigeon.Spec.Log

/-!
# What the logger writes

For each file, what was written to it followed by what is left for it in the list is what was
pushed for it, at every moment. The log thread leaves its loop without another look at the list,
so what counts at the end is where it is when `log_close` clears the flag.

* `LogOK`, `step_log_ok`: the balance between the list and the files, with the streams that may
  hold something.
* `Strands`: the flag is cleared behind the last look at the list, with a due record in it.
* `Left`: the log thread is behind its last look at the list and a due record is in it;
  `step_left_iff` says which steps lead there.
* `log_records`: records are written once and in order; all due records are written when
  `log_close` returns exactly if it does not strand one.
-/

namespace Spigeon

open Lts

/-- The records for a file. -/
def recordsFor (f : LogFile) (rs : List Record) : List Record := rs.filter fun r => r.file = f

/-- The records in the list that are not written: the front one stays there until the
thread has popped it. -/
def Logger.unwritten (s : Logger) : List Record :=
  match s.thread with
  | .pop _ => s.list.tail
  | _ => s.list

/-- What the log thread relies on: the front of the list, and which streams are empty. -/
def ThreadAt (s : Logger) : LogThread → Prop
  | .test => ∀ f, s.streams f = []
  | .sleep => ∀ f, s.streams f = []
  | .check _ => ∀ f, s.streams f = []
  | .empty dirty => ∀ f, f ∉ dirty → s.streams f = []
  | .front dirty => (∀ f, f ∉ dirty → s.streams f = []) ∧ s.list ≠ []
  | .write dirty r => (∀ f, f ∉ dirty → s.streams f = []) ∧ r.file ∈ dirty ∧ s.list.head? = some r
  | .pop dirty => (∀ f, f ∉ dirty → s.streams f = []) ∧ s.list ≠ []
  | .flush dirty files => ∀ f, f ∉ dirty ∨ f ∉ files → s.streams f = []
  | .done => ∀ f, s.streams f = []

structure LogOK (s : Logger) : Prop where
  balance : ∀ f, s.files f ++ s.streams f ++ recordsFor f s.unwritten = recordsFor f s.pushed
  numbered : ∀ (i : ℕ) (r : Record), s.pushed[i]? = some r → r.id = i
  thread : ThreadAt s s.thread
  returned : ∀ r ∈ s.returned, r ∈ s.pushed
  due : ∀ r ∈ s.due, r ∈ s.returned
  flag : s.running = false ↔ s.closing = .cleared ∨ s.closing = .returned
  joined : s.closing = .returned → s.thread = .done

variable {s s' : Logger} {e : LogEvent}

theorem LogOK.nodup (h : LogOK s) : s.pushed.Nodup := by
  rw [List.nodup_iff_injective_get]
  intro i j hij
  have hi := h.numbered i (s.pushed.get i) (List.getElem?_eq_getElem i.2)
  have hj := h.numbered j (s.pushed.get j) (List.getElem?_eq_getElem j.2)
  rw [hij] at hi
  exact Fin.ext (hi.symm.trans hj)

theorem LogOK.fresh (h : LogOK s) (level : LogLevel) : (⟨s.pushed.length, level⟩ : Record) ∉ s.pushed := by
  intro hmem
  obtain ⟨i, hi, hget⟩ := List.getElem_of_mem hmem
  have hid := h.numbered i _ (List.getElem?_eq_getElem hi)
  rw [hget] at hid
  dsimp only at hid
  omega

theorem LogOK.due_pushed (h : LogOK s) {r : Record} (hr : r ∈ s.due) : r ∈ s.pushed := h.returned r (h.due r hr)

/-! ## Streams and files -/

theorem flush_balance (s : Logger) (f g : LogFile) :
    (s.flush f).files g ++ (s.flush f).streams g = s.files g ++ s.streams g := by
  unfold Logger.flush
  dsimp only
  by_cases hg : g = f
  · rw [if_pos hg, if_pos hg, List.append_nil, hg]
  · rw [if_neg hg, if_neg hg]

theorem flush_streams {f g : LogFile} (h : g ≠ f → s.streams g = []) : (s.flush f).streams g = [] := by
  unfold Logger.flush
  dsimp only
  by_cases hg : g = f
  · rw [if_pos hg]
  · rw [if_neg hg]; exact h hg

/-- The front record goes from the list to the stream of its file. -/
theorem fwrite_balance {r : Record} {rest : List Record} (f : LogFile) :
    s.files f ++ (s.fwrite r).streams f ++ recordsFor f rest =
      s.files f ++ s.streams f ++ recordsFor f (r :: rest) := by
  unfold Logger.fwrite recordsFor
  dsimp only
  by_cases hf : f = r.file
  · rw [if_pos hf, List.filter_cons_of_pos (by simpa using hf.symm)]
    simp only [List.append_assoc, List.singleton_append]
  · rw [if_neg hf, List.filter_cons_of_neg (by simpa using Ne.symm hf)]

theorem fwrite_streams {r : Record} {f : LogFile} (hf : f ≠ r.file) : (s.fwrite r).streams f = s.streams f :=
  if_neg hf

/-! ## Steps -/

theorem ThreadAt.congr {t : LogThread} (h : ThreadAt s t) (hstreams : s'.streams = s.streams)
    (hlist : s'.list = s.list) : ThreadAt s' t := by
  cases t <;> simpa only [ThreadAt, hstreams, hlist] using h

/-- A push does not disturb the log thread: the front of a list that is not empty stays. -/
theorem ThreadAt.push {t : LogThread} (h : ThreadAt s t) (r : Record) : ThreadAt (s.push r) t := by
  have hne : (s.push r).list ≠ [] := List.append_ne_nil_of_right_ne_nil _ (List.cons_ne_nil r [])
  cases t with
  | test | sleep | check _ | empty _ | flush _ _ | done => exact h
  | front _ | pop _ => exact ⟨h.1, hne⟩
  | write dirty q =>
    refine ⟨h.1, h.2.1, ?_⟩
    obtain ⟨rest, hrest⟩ := List.head?_eq_some_iff.1 h.2.2
    simp only [Logger.push, hrest, List.cons_append, List.head?_cons]

theorem push_unwritten (h : ThreadAt s s.thread) (r : Record) : (s.push r).unwritten = s.unwritten ++ [r] := by
  unfold Logger.unwritten
  cases ht : s.thread with
  | pop dirty =>
    rw [ht] at h
    simp only [Logger.push, ht]
    exact List.tail_append_of_ne_nil h.2
  | test | sleep | check _ | empty _ | front _ | write _ _ | flush _ _ | done => simp only [Logger.push, ht]

/-- The two states agree on the calls of `log_printf` and `log_close`. -/
structure SameCalls (s s' : Logger) : Prop where
  pushed : s'.pushed = s.pushed
  returned : s'.returned = s.returned
  due : s'.due = s.due
  running : s'.running = s.running
  closing : s'.closing = s.closing

theorem flush_if_calls (p : Prop) [Decidable p] (f : LogFile) (t : LogThread) :
    SameCalls s ((if p then s.flush f else s).goto t) := by
  split
  · exact ⟨rfl, rfl, rfl, rfl, rfl⟩
  · exact ⟨rfl, rfl, rfl, rfl, rfl⟩

theorem threadStep_calls {moved : Bool} (hst : s.threadStep moved = some s') : SameCalls s s' := by
  have hgoto : ∀ t, SameCalls s (s.goto t) := fun t => ⟨rfl, rfl, rfl, rfl, rfl⟩
  unfold Logger.threadStep at hst
  split at hst
  case h_4 | h_10 => exact Option.some.inj hst ▸ flush_if_calls _ _ _
  case h_6 =>
    obtain ⟨r, -, rfl⟩ := Option.map_eq_some_iff.1 hst
    exact hgoto _
  case h_11 => cases hst
  all_goals exact Option.some.inj hst ▸ ⟨rfl, rfl, rfl, rfl, rfl⟩

/-- What a step of the log thread has to keep. -/
theorem LogOK.move (h : LogOK s) (hcalls : SameCalls s s') (hrun : s.thread ≠ .done)
    (hbal : ∀ f, s'.files f ++ s'.streams f ++ recordsFor f s'.unwritten =
      s.files f ++ s.streams f ++ recordsFor f s.unwritten)
    (ht : ThreadAt s' s'.thread) : LogOK s' := by
  refine ⟨?_, ?_, ht, ?_, ?_, ?_, ?_⟩
  · intro f
    rw [hbal f, hcalls.pushed]
    exact h.balance f
  · intro i r hr
    rw [hcalls.pushed] at hr
    exact h.numbered i r hr
  · intro r hr
    rw [hcalls.returned] at hr
    rw [hcalls.pushed]
    exact h.returned r hr
  · intro r hr
    rw [hcalls.due] at hr
    rw [hcalls.returned]
    exact h.due r hr
  · rw [hcalls.running, hcalls.closing]
    exact h.flag
  · intro hc
    rw [hcalls.closing] at hc
    exact absurd (h.joined hc) hrun

/-- The log thread goes on without a look at the list. -/
theorem LogOK.goto (h : LogOK s) {t : LogThread} (hrun : s.thread ≠ .done)
    (hlist : (s.goto t).unwritten = s.unwritten) (ht : ThreadAt s t) : LogOK (s.goto t) := by
  refine h.move ⟨rfl, rfl, rfl, rfl, rfl⟩ hrun ?_ (ht.congr rfl rfl)
  intro f
  rw [hlist]
  rfl

/-- The log thread flushes a stream, as it does after a drain and for a file that was moved. -/
theorem LogOK.flush (h : LogOK s) {t : LogThread} {f : LogFile} (hrun : s.thread ≠ .done)
    (hlist : (s.goto t).unwritten = s.unwritten) (ht : ThreadAt (s.flush f) t) : LogOK ((s.flush f).goto t) := by
  refine h.move ⟨rfl, rfl, rfl, rfl, rfl⟩ hrun ?_ (ht.congr rfl rfl)
  intro g
  have hsame : ((s.flush f).goto t).unwritten = s.unwritten := hlist
  have hbal := flush_balance s f g
  rw [hsame]
  exact congrArg (· ++ recordsFor g s.unwritten) hbal

theorem threadStep_log_ok {moved : Bool} (h : LogOK s) (hst : s.threadStep moved = some s') : LogOK s' := by
  have hat := h.thread
  have hrun : s.thread ≠ .done := by
    intro ht
    simp only [Logger.threadStep, ht, reduceCtorEq] at hst
  cases ht : s.thread with
  | test =>
    simp only [Logger.threadStep, ht, Option.some.injEq] at hst hat
    subst hst
    cases s.running
    · exact h.goto hrun (by simp only [Logger.unwritten, Logger.goto, ht]; rfl) hat
    · exact h.goto hrun (by simp only [Logger.unwritten, Logger.goto, ht]; rfl) hat
  | sleep =>
    simp only [Logger.threadStep, ht, Option.some.injEq] at hst hat
    subst hst
    exact h.goto hrun (by simp only [Logger.unwritten, Logger.goto, ht]) hat
  | check files =>
    cases files with
    | nil =>
      simp only [Logger.threadStep, ht, Option.some.injEq] at hst hat
      subst hst
      exact h.goto hrun (by simp only [Logger.unwritten, Logger.goto, ht]) fun f _ => hat f
    | cons f fs =>
      simp only [Logger.threadStep, ht, Option.some.injEq] at hst hat
      subst hst
      have hlist : (s.goto (.check fs)).unwritten = s.unwritten := by
        simp only [Logger.unwritten, Logger.goto, ht]
      cases moved
      · exact h.goto hrun hlist hat
      · exact h.flush hrun hlist fun g => flush_streams fun _ => hat g
  | empty dirty =>
    simp only [Logger.threadStep, ht, Option.some.injEq] at hst hat
    subst hst
    by_cases hl : s.list = []
    · rw [if_pos hl]
      -- the flush loop goes over all files, so it leaves out only those that are not dirty
      refine h.goto hrun (by simp only [Logger.unwritten, Logger.goto, ht]) ?_
      intro f hf
      exact hat f (hf.resolve_right fun hall => hall (by cases f <;> decide))
    · rw [if_neg hl]
      exact h.goto hrun (by simp only [Logger.unwritten, Logger.goto, ht]) ⟨hat, hl⟩
  | front dirty =>
    simp only [Logger.threadStep, ht, Option.map_eq_some_iff] at hst hat
    obtain ⟨r, hr, rfl⟩ := hst
    refine h.goto hrun (by simp only [Logger.unwritten, Logger.goto, ht]) ⟨?_, List.mem_cons_self, hr⟩
    intro f hf
    exact hat.1 f fun hmem => hf (List.mem_cons_of_mem _ hmem)
  | write dirty r =>
    simp only [Logger.threadStep, ht, Option.some.injEq] at hst hat
    subst hst
    obtain ⟨hstreams, hdirty, hhead⟩ := hat
    obtain ⟨rest, hrest⟩ := List.head?_eq_some_iff.1 hhead
    -- the record is in the stream now, and still in the list until it is popped
    refine h.move ⟨rfl, rfl, rfl, rfl, rfl⟩ hrun ?_ ⟨?_, ?_⟩
    · intro f
      have hun : s.unwritten = r :: rest := by simp only [Logger.unwritten, ht, hrest]
      have hun' : ((s.fwrite r).goto (.pop dirty)).unwritten = rest := by
        simp only [Logger.unwritten, Logger.goto, Logger.fwrite, hrest, List.tail_cons]
      rw [hun, hun']
      exact fwrite_balance (s := s) f
    · intro f hf
      have hne : f ≠ r.file := fun hr => hf (hr ▸ hdirty)
      exact (fwrite_streams hne).trans (hstreams f hf)
    · intro hnil
      have hl : s.list = [] := hnil
      rw [hrest] at hl
      cases hl
  | pop dirty =>
    simp only [Logger.threadStep, ht, Option.some.injEq] at hst hat
    subst hst
    refine h.move ⟨rfl, rfl, rfl, rfl, rfl⟩ hrun ?_ hat.1
    intro f
    simp only [Logger.unwritten, ht]
  | flush dirty files =>
    cases files with
    | nil =>
      simp only [Logger.threadStep, ht, Option.some.injEq] at hst hat
      subst hst
      exact h.goto hrun (by simp only [Logger.unwritten, Logger.goto, ht]) fun f => hat f (.inr List.not_mem_nil)
    | cons f fs =>
      simp only [Logger.threadStep, ht, Option.some.injEq] at hst hat
      subst hst
      have hlist : (s.goto (.flush dirty fs)).unwritten = s.unwritten := by
        simp only [Logger.unwritten, Logger.goto, ht]
      have hrest : ∀ g, g ≠ f → (g ∉ dirty ∨ g ∉ fs) → s.streams g = [] := by
        intro g hgf hg
        exact hat g (hg.imp_right fun hfs hmem => (List.mem_cons.1 hmem).elim hgf hfs)
      by_cases hf : f ∈ dirty
      · rw [if_pos hf]
        exact h.flush hrun hlist fun g hg => flush_streams fun hgf => hrest g hgf hg
      · rw [if_neg hf]
        -- a file that is not dirty has nothing in its stream
        refine h.goto hrun hlist fun g hg => ?_
        by_cases hgf : g = f
        · exact hat g (.inl (hgf ▸ hf))
        · exact hrest g hgf hg
  | done => exact absurd ht hrun

/-- All that a step can do. -/
inductive LogMove (s : Logger) (e : LogEvent) (s' : Logger) : Prop where
  | push (level : LogLevel) (he : e = .push level) (hs : s' = s.push ⟨s.pushed.length, level⟩)
  | ret (r : Record) (he : e ≠ .clear) (hr : r ∈ s.pushed) (hs : s' = { s with returned := s.returned ++ [r] })
  | close (he : e = .close) (hc : s.closing = .before)
      (hs : s' = { s with closing := .called, due := s.returned })
  | clear (he : e = .clear) (hs : s' = { s with closing := .cleared, running := false })
  | join (he : e = .join) (hc : s.closing = .cleared) (hdone : s.thread = .done)
      (hs : s' = { s with closing := .returned })
  | thread (moved : Bool) (he : e = .thread moved) (hst : s.threadStep moved = some s')

theorem log_moves (hst : s.step e = some s') : LogMove s e s' := by
  cases e with
  | push level => exact .push level rfl (Option.some.inj hst).symm
  | ret id =>
    obtain ⟨r, hr, hst⟩ := Option.bind_eq_some_iff.1 hst
    simp only [Option.ite_none_left_eq_some, Option.some.injEq] at hst
    exact .ret r (by simp) (List.mem_of_getElem? hr) hst.2.symm
  | close =>
    simp only [Logger.step, Option.ite_none_right_eq_some, Option.some.injEq] at hst
    exact .close rfl hst.1 hst.2.symm
  | clear =>
    simp only [Logger.step, Option.ite_none_right_eq_some, Option.some.injEq] at hst
    exact .clear rfl hst.2.symm
  | join =>
    simp only [Logger.step, Option.ite_none_right_eq_some, Option.some.injEq] at hst
    exact .join rfl hst.1.1 hst.1.2 hst.2.symm
  | thread moved => exact .thread moved rfl hst

/-- The flag is up as long as `log_close` has not come to it. -/
theorem LogOK.running_of_before (h : LogOK s) (hc : s.closing = .before) : s.running = true := by
  have hflag := h.flag
  simp only [hc, reduceCtorEq, or_self, iff_false] at hflag
  simpa only [Bool.not_eq_false] using hflag

/-- **The balance of the logger holds at all times.** -/
theorem step_log_ok (h : LogOK s) (hst : s.step e = some s') : LogOK s' := by
  cases log_moves hst with
  | push level _ hs =>
    subst hs
    refine ⟨?_, ?_, h.thread.push _, fun r hr => ?_, h.due, h.flag, h.joined⟩
    · intro f
      have hf := h.balance f
      rw [push_unwritten h.thread]
      simp only [recordsFor, Logger.push, List.filter_append, ← List.append_assoc] at hf ⊢
      rw [hf]
    · intro i r hr
      rcases List.concat_cases hr with hr | ⟨hi, rfl⟩
      · exact h.numbered i r hr
      · exact hi.symm
    · exact List.mem_append_left _ (h.returned r hr)
  | ret r _ hr hs =>
    subst hs
    refine ⟨h.balance, h.numbered, h.thread.congr rfl rfl, ?_, fun q hq => ?_, h.flag, h.joined⟩
    · intro q hq
      rcases List.mem_append.1 hq with hq | hq
      · exact h.returned q hq
      · rw [List.mem_singleton.1 hq]
        exact hr
    · exact List.mem_append_left _ (h.due q hq)
  | close _ hc hs =>
    subst hs
    have hrun := h.running_of_before hc
    exact ⟨h.balance, h.numbered, h.thread.congr rfl rfl, h.returned,
      fun r hr => hr, by simp [hrun], fun hc => by cases hc⟩
  | clear _ hs =>
    subst hs
    exact ⟨h.balance, h.numbered, h.thread.congr rfl rfl, h.returned, h.due, by simp, fun hc => by cases hc⟩
  | join _ hc hdone hs =>
    subst hs
    have hflag : s.running = false := h.flag.2 (.inl hc)
    exact ⟨h.balance, h.numbered, h.thread.congr rfl rfl, h.returned, h.due, by simp [hflag], fun _ => hdone⟩
  | thread moved _ hst => exact threadStep_log_ok h hst

theorem init_log_ok : LogOK Logger.init := by
  refine ⟨fun f => rfl, ?_, fun f => rfl, ?_, ?_, ?_, ?_⟩
  · intro i r hr
    cases hr
  · intro r hr
    cases hr
  · intro r hr
    cases hr
  · simp [Logger.init]
  · intro hc
    cases hc

/-! ## The last look at the list -/

/-- The log thread takes nothing more from the list once the flag is cleared. -/
def LogThread.late : LogThread → Bool
  | .flush _ _ | .test | .done => true
  | _ => false

/-- `log_close` clears the flag behind the last look at the list, and a record whose
`log_printf` had returned when it was called is in it. -/
def Strands (s : Logger) (e : LogEvent) : Prop := e = .clear ∧ s.thread.late = true ∧ ∃ r ∈ s.due, r ∈ s.list

instance (s : Logger) (e : LogEvent) : Decidable (Strands s e) := by unfold Strands; infer_instance

/-- A due record is in the list, and nobody will take it from there. -/
structure Left (s : Logger) : Prop where
  cleared : s.running = false
  late : s.thread.late = true
  left : ∃ r ∈ s.due, r ∈ s.list

/-- A thread behind its last look leaves the list alone. -/
theorem threadStep_late {moved : Bool} (hrun : s.running = false) (hlate : s.thread.late = true)
    (hst : s.threadStep moved = some s') : s'.thread.late = true ∧ s'.list = s.list := by
  cases ht : s.thread with
  | test =>
    simp only [Logger.threadStep, ht, hrun, Bool.false_eq_true, if_false, Option.some.injEq] at hst
    exact hst ▸ ⟨rfl, rfl⟩
  | flush dirty files =>
    cases files with
    | nil =>
      simp only [Logger.threadStep, ht, Option.some.injEq] at hst
      exact hst ▸ ⟨rfl, rfl⟩
    | cons f fs =>
      simp only [Logger.threadStep, ht, Option.some.injEq] at hst
      subst hst
      split
      · exact ⟨rfl, rfl⟩
      · exact ⟨rfl, rfl⟩
  | done => simp only [Logger.threadStep, ht, reduceCtorEq] at hst
  | sleep | check _ | empty _ | front _ | write _ _ | pop _ =>
    rw [ht] at hlate
    cases hlate

/-- A thread that comes to its last look has found the list empty. -/
theorem threadStep_becomes_late {moved : Bool} (hlate : s.thread.late = false)
    (hst : s.threadStep moved = some s') (hlate' : s'.thread.late = true) : s'.list = [] := by
  cases ht : s.thread with
  | empty dirty =>
    simp only [Logger.threadStep, ht, Option.some.injEq] at hst
    subst hst
    by_cases hl : s.list = []
    · exact hl
    · rw [if_neg hl] at hlate'
      cases hlate'
  | sleep =>
    simp only [Logger.threadStep, ht, Option.some.injEq] at hst
    subst hst
    cases hlate'
  | check files =>
    cases files <;> simp only [Logger.threadStep, ht, Option.some.injEq] at hst <;> subst hst <;> cases hlate'
  | front dirty =>
    simp only [Logger.threadStep, ht, Option.map_eq_some_iff] at hst
    obtain ⟨r, -, rfl⟩ := hst
    cases hlate'
  | write dirty r =>
    simp only [Logger.threadStep, ht, Option.some.injEq] at hst
    subst hst
    cases hlate'
  | pop dirty =>
    simp only [Logger.threadStep, ht, Option.some.injEq] at hst
    subst hst
    cases hlate'
  | test | flush _ _ | done =>
    rw [ht] at hlate
    cases hlate

/-- **Only `log_close` leaves records behind**, and they stay behind. -/
theorem step_left_iff (hok : LogOK s) (hst : s.step e = some s') : Left s' ↔ Left s ∨ Strands s e := by
  have hother : e ≠ .clear → ¬ Strands s e := fun he hs => he hs.1
  cases log_moves hst with
  | push level he hs =>
    subst he hs
    rw [or_iff_left (hother (by simp))]
    constructor
    · rintro ⟨hrun, hlate, r, hdue, hlist⟩
      refine ⟨hrun, hlate, r, hdue, (List.mem_append.1 hlist).resolve_right fun hnew => ?_⟩
      -- the new record is not due
      have hold := hok.due_pushed hdue
      rw [List.mem_singleton.1 hnew] at hold
      exact hok.fresh level hold
    · rintro ⟨hrun, hlate, r, hdue, hlist⟩
      exact ⟨hrun, hlate, r, hdue, List.mem_append_left _ hlist⟩
  | ret r he _ hs =>
    subst hs
    rw [or_iff_left (hother he)]
    exact ⟨fun h => ⟨h.cleared, h.late, h.left⟩, fun h => ⟨h.cleared, h.late, h.left⟩⟩
  | close he hc hs =>
    subst he hs
    have hrun := hok.running_of_before hc
    rw [or_iff_left (hother (by simp))]
    exact ⟨fun h => absurd (hrun.symm.trans h.cleared) (by decide),
      fun h => absurd (hrun.symm.trans h.cleared) (by decide)⟩
  | clear he hs =>
    subst he hs
    constructor
    · rintro ⟨-, hlate, hleft⟩
      exact .inr ⟨rfl, hlate, hleft⟩
    · rintro (h | ⟨-, hlate, hleft⟩)
      · exact ⟨rfl, h.late, h.left⟩
      · exact ⟨rfl, hlate, hleft⟩
  | join he _ _ hs =>
    subst he hs
    rw [or_iff_left (hother (by simp))]
    exact ⟨fun h => ⟨h.cleared, h.late, h.left⟩, fun h => ⟨h.cleared, h.late, h.left⟩⟩
  | thread moved he hst =>
    subst he
    have hcalls := threadStep_calls hst
    rw [or_iff_left (hother (by simp))]
    constructor
    · rintro ⟨hrun, hlate, r, hdue, hlist⟩
      rw [hcalls.running] at hrun
      rw [hcalls.due] at hdue
      by_cases hl : s.thread.late = true
      · obtain ⟨-, hsame⟩ := threadStep_late hrun hl hst
        exact ⟨hrun, hl, r, hdue, hsame ▸ hlist⟩
      · rw [threadStep_becomes_late (by simpa using hl) hst hlate] at hlist
        cases hlist
    · rintro ⟨hrun, hlate, r, hdue, hlist⟩
      obtain ⟨hlate', hsame⟩ := threadStep_late hrun hlate hst
      exact ⟨hcalls.running.trans hrun, hlate', r, hcalls.due.symm ▸ hdue, hsame.symm ▸ hlist⟩

/-! ## Results -/

/-- What was written is, file by file, the beginning of what was pushed, without repetitions. -/
def InOrder (s : Logger) : Prop :=
  s.pushed.Nodup ∧ ∀ f, s.files f ++ s.streams f <+: recordsFor f s.pushed

/-- The records whose `log_printf` had returned before `log_close` was called are in their
files, each once. -/
def DueWritten (s : Logger) : Prop := ∀ r ∈ s.due, (s.files r.file).count r = 1

instance (s : Logger) : Decidable (DueWritten s) := by unfold DueWritten; infer_instance

theorem LogOK.inOrder (h : LogOK s) : InOrder s := by
  refine ⟨h.nodup, fun f => ?_⟩
  rw [← h.balance f]
  exact List.prefix_append _ _

/-- Once `log_close` has returned, what is not in the files is in the list. -/
theorem LogOK.closed (h : LogOK s) (hc : s.closing = .returned) (f : LogFile) :
    s.files f ++ recordsFor f s.list = recordsFor f s.pushed := by
  have hdone := h.joined hc
  have hat := h.thread
  rw [hdone] at hat
  have hf := h.balance f
  rw [hat f, List.append_nil] at hf
  simpa only [Logger.unwritten, hdone] using hf

theorem LogOK.dueWritten_iff (h : LogOK s) (hc : s.closing = .returned) : DueWritten s ↔ ¬ Left s := by
  have hlate : s.thread.late = true := by rw [h.joined hc]; rfl
  have hcount : ∀ r ∈ s.due, (s.files r.file).count r + (recordsFor r.file s.list).count r = 1 := by
    intro r hr
    have hmem : r ∈ recordsFor r.file s.pushed := List.mem_filter.2 ⟨h.due_pushed hr, by simp⟩
    rw [← List.count_append, h.closed hc]
    exact List.count_eq_one_of_mem (h.nodup.filter _) hmem
  constructor
  · rintro hdue ⟨-, -, r, hr, hlist⟩
    have hin : r ∈ recordsFor r.file s.list := List.mem_filter.2 ⟨hlist, by simp⟩
    have hpos := List.count_pos_iff.2 hin
    have hone := hcount r hr
    have hwritten := hdue r hr
    omega
  · intro hleft r hr
    have hout : r ∉ recordsFor r.file s.list := by
      intro hin
      exact hleft ⟨h.flag.2 (.inr hc), hlate, r, hr, (List.mem_filter.1 hin).1⟩
    have hone := hcount r hr
    rw [List.count_eq_zero_of_not_mem hout] at hone
    exact hone

/-- **The logger writes in order and at most once, and loses the records that `log_close`
strands.** In every interleaving, what was written to a file is the beginning of what was pushed
for it. When `log_close` returns, each record whose `log_printf` had returned before the call
is in its file exactly once, if and only if the flag was not cleared behind the last look at the
list with such a record in it. -/
theorem log_records (es : List LogEvent) :
    Always Logger.step InOrder Logger.init es ∧
      ∀ s, run Logger.step Logger.init es = some s → s.closing = .returned →
        (DueWritten s ↔ Along Logger.step (fun s e => ¬ Strands s e) Logger.init es) := by
  have hstep : ∀ s e s', LogOK s → Logger.step s e = some s' → LogOK s' := fun s e s' h hst => step_log_ok h hst
  have hinit : ¬ Left Logger.init := fun h => absurd h.cleared (by decide)
  refine ⟨(always hstep init_log_ok).mono fun s h => h.inOrder, ?_⟩
  intro s hr hc
  have hok : LogOK s := (always hstep init_log_ok).last hr
  rw [hok.dueWritten_iff hc]
  constructor
  · intro hleft
    refine along_of_run hstep (fun s e s' h hl hst => (step_left_iff h hst).2 (.inl hl)) ?_ init_log_ok hr hleft
    intro s e s' h hst hs
    exact (step_left_iff h hst).2 (.inr (not_not.1 hs))
  · intro halong
    refine (run_inv_along (I := fun s => LogOK s ∧ ¬ Left s) ?_ ⟨init_log_ok, hinit⟩ halong hr).2
    intro s e s' h hs hst
    exact ⟨step_log_ok h.1 hst, fun hl => ((step_left_iff h.1 hst).1 hl).elim h.2 hs⟩

/-- The log thread goes on `n` times. -/
def logThread (n : ℕ) : List LogEvent := List.replicate n (.thread false)

/-- `log_close` is called while the log thread drains two records. -/
def drainedRun : List LogEvent :=
  [.push .fatal, .push .notice, .ret 1, .ret 0] ++ logThread 7 ++ [.close, .clear] ++ logThread 13 ++ [.join]

theorem log_records_drained :
    ∃ s, run Logger.step Logger.init drainedRun = some s ∧ s.closing = .returned ∧ s.due.length = 2 ∧
      DueWritten s := by
  have hmap : (run Logger.step Logger.init drainedRun).map (fun s => (s.closing, s.due.length)) =
      some (.returned, 2) := by
    decide +kernel
  obtain ⟨s, hrun, hs⟩ := Option.map_eq_some_iff.1 hmap
  obtain ⟨hc, hdue⟩ := Prod.mk.inj hs
  exact ⟨s, hrun, hc, hdue, ((log_records drainedRun).2 s hrun hc).2 (by decide +kernel)⟩

/-- A record is pushed right after the log thread has found the list empty, and `log_close` clears the flag
before the thread tests it again. -/
def strandedRun : List LogEvent :=
  logThread 7 ++ [.push .fatal, .ret 0, .close, .clear] ++ logThread 5 ++ [.join]

theorem log_close_loses_record :
    ∃ s, run Logger.step Logger.init strandedRun = some s ∧ s.closing = .returned ∧ s.due = [⟨0, .fatal⟩] ∧
      s.files .logwf = [] ∧ ¬ DueWritten s := by
  have hmap : (run Logger.step Logger.init strandedRun).map
      (fun s => (s.closing, s.due, s.files .logwf, decide (DueWritten s))) =
        some (.returned, [⟨0, .fatal⟩], [], false) := by
    decide +kernel
  obtain ⟨s, hrun, hs⟩ := Option.map_eq_some_iff.1 hmap
  simp only [Prod.mk.injEq, decide_eq_false_iff_not] at hs
  obtain ⟨hc, hdue, hfile, hlost⟩ := hs
  exact ⟨s, hrun, hc, hdue, hfile, hlost⟩

end Spigeon

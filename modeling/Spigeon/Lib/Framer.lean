import Mathlib.Data.List.Basic

/-!
# Decoders of length-framed streams

A decoder keeps a buffer, of which the first `done` elements belong to finished
frames, and waits for the next `want` elements behind them. When they are there a
handler with a memory of its own is called once; it says how to go on: read the
buffer again from its start (`rewind`), go on behind the frame (`advance`), or
drop everything up to the end of the frame (`drop`).

`feed` hands the decoder a chunk and calls the handler at most once. A chunk may
complete more than one frame, so the result of a run depends in general on how the
stream was cut. `feed_eq_bytes`: it does not when no complete frame is left
behind by any chunk, for handlers that look no further than the end of the frame.
Every such run is the run that is fed one element at a time.
-/

variable {α St σ : Type*}

/-- A decoder: `want` elements are expected behind the first `done` of the buffer. -/
structure Framer (α St : Type*) where
  state : St
  done : ℕ
  want : ℕ
  buf : List α

/-- How a handler goes on. -/
inductive Framer.Move (St : Type*) where
  | rewind (state : St) (want : ℕ)
  | advance (state : St) (want : ℕ)
  | drop (state : St) (want : ℕ)

/-- A run of a decoder: the handler's memory and the frames handed to it so far. -/
structure Framer.Run (α St σ : Type*) where
  mem : σ
  fr : Framer α St
  frames : List (St × List α)

namespace Framer

/-- A complete frame is in the buffer. -/
def Full (f : Framer α St) : Prop := f.done + f.want ≤ f.buf.length

instance (f : Framer α St) : Decidable f.Full := inferInstanceAs (Decidable (_ ≤ _))

def frame (f : Framer α St) : List α := (f.buf.drop f.done).take f.want

def move (f : Framer α St) : Move St → Framer α St
  | .rewind st n => ⟨st, 0, n, f.buf⟩
  | .advance st n => ⟨st, f.done + f.want, n, f.buf⟩
  | .drop st n => ⟨st, 0, n, f.buf.drop (f.done + f.want)⟩

/-- The decoder with more elements in its buffer. -/
def push (f : Framer α St) (xs : List α) : Framer α St := { f with buf := f.buf ++ xs }

/-- The decoder with its buffer cut at the end of the frame. -/
def cut (f : Framer α St) : Framer α St := { f with buf := f.buf.take (f.done + f.want) }

/-- The handler looks no further than the end of the frame. -/
def Local (H : σ → Framer α St → σ × Move St) : Prop := ∀ m f, H m f = H m f.cut

/-- The elements behind the frame are fewer than the handler's next size. -/
def Short (f : Framer α St) : Move St → Prop
  | .rewind _ n => f.buf.length < n
  | .advance _ n => f.buf.length - (f.done + f.want) < n
  | .drop _ n => f.buf.length - (f.done + f.want) < n

instance (f : Framer α St) : ∀ mv : Move St, Decidable (f.Short mv)
  | .rewind _ n => inferInstanceAs (Decidable (f.buf.length < n))
  | .advance _ n => inferInstanceAs (Decidable (f.buf.length - (f.done + f.want) < n))
  | .drop _ n => inferInstanceAs (Decidable (f.buf.length - (f.done + f.want) < n))

variable (H : σ → Framer α St → σ × Move St)

def feed (r : Run α St σ) (chunk : List α) : Run α St σ :=
  let f := r.fr.push chunk
  if f.Full then ⟨(H r.mem f).1, f.move (H r.mem f).2, r.frames ++ [(f.state, f.frame)]⟩
  else { r with fr := f }

@[simp] theorem push_nil (f : Framer α St) : f.push [] = f := by simp [push]

theorem push_push (f : Framer α St) (xs ys : List α) : (f.push xs).push ys = f.push (xs ++ ys) := by
  simp [push]

variable {H}

theorem feed_full {r : Run α St σ} {chunk : List α} (h : (r.fr.push chunk).Full) :
    feed H r chunk = ⟨(H r.mem (r.fr.push chunk)).1, (r.fr.push chunk).move (H r.mem (r.fr.push chunk)).2,
      r.frames ++ [((r.fr.push chunk).state, (r.fr.push chunk).frame)]⟩ := by
  unfold feed; exact if_pos h

theorem feed_wait {r : Run α St σ} {chunk : List α} (h : ¬ (r.fr.push chunk).Full) :
    feed H r chunk = { r with fr := r.fr.push chunk } := by
  unfold feed; exact if_neg h

/-- **No frame is left behind exactly when the surplus is short.** -/
theorem move_waits {f : Framer α St} (h : f.Full) (mv : Move St) : ¬ (f.move mv).Full ↔ f.Short mv := by
  unfold Full at h
  cases mv with
  | rewind st n => simp [move, Full, Short]
  | advance st n => simp only [move, Full, Short]; omega
  | drop st n => simp only [move, Full, Short, List.length_drop]; omega

theorem Full.push {f : Framer α St} (h : f.Full) (xs : List α) : (f.push xs).Full := by
  unfold Full Framer.push at *
  simp only [List.length_append]; omega

/-- Fewer elements wait at least as long. -/
theorem not_full_of_push {f : Framer α St} {xs : List α} (h : ¬ (f.push xs).Full) : ¬ f.Full :=
  fun hf => h (hf.push xs)

/-- Elements behind a complete frame stay behind it. -/
theorem move_push {f : Framer α St} (h : f.Full) (xs : List α) (mv : Move St) :
    (f.push xs).move mv = (f.move mv).push xs := by
  unfold Full at h
  cases mv with
  | rewind st n => rfl
  | advance st n => rfl
  | drop st n => simp only [move, push]; rw [List.drop_append_of_le_length h]

theorem frame_push {f : Framer α St} (h : f.Full) (xs : List α) : (f.push xs).frame = f.frame := by
  unfold Full at h
  simp only [frame, push]
  rw [List.drop_append_of_le_length (by omega), List.take_append_of_le_length]
  rw [List.length_drop]; omega

theorem cut_push {f : Framer α St} (h : f.Full) (xs : List α) : (f.push xs).cut = f.cut := by
  simp only [cut, push]; rw [List.take_append_of_le_length h]

theorem cut_cut (f : Framer α St) : f.cut.cut = f.cut := by
  simp only [cut]; rw [List.take_take, Nat.min_self]

/-- Elements that complete nothing are only appended. -/
theorem foldl_wait (chunk : List α) : ∀ r : Run α St σ, ¬ (r.fr.push chunk).Full →
    chunk.foldl (fun r x => feed H r [x]) r = { r with fr := r.fr.push chunk } := by
  induction chunk with
  | nil => intro r _; simp
  | cons x xs ih =>
    intro r h
    have hsplit : r.fr.push (x :: xs) = (r.fr.push [x]).push xs := by rw [push_push]; rfl
    rw [hsplit] at h ⊢
    simp only [List.foldl_cons]
    rw [feed_wait (not_full_of_push h), ih _ h]

/-- **A chunk that leaves no complete frame behind acts as its elements one by one.** -/
theorem feed_eq_bytes (hH : Local H) {r : Run α St σ} {chunk : List α} (h0 : ¬ r.fr.Full)
    (h1 : ¬ (feed H r chunk).fr.Full) :
    feed H r chunk = chunk.foldl (fun r x => feed H r [x]) r := by
  by_cases hf : (r.fr.push chunk).Full
  · -- the frame ends inside the chunk, at an element `x` with `pre` before it
    set k := r.fr.done + r.fr.want - r.fr.buf.length with hk
    have hkpos : 0 < k := by unfold Full at h0; omega
    have hkle : k ≤ chunk.length := by
      unfold Full push at hf; simp only [List.length_append] at hf; omega
    obtain ⟨x, hx⟩ : ∃ x, chunk[k - 1]? = some x :=
      ⟨_, List.getElem?_eq_getElem (show k - 1 < chunk.length by omega)⟩
    have hchunk : chunk = chunk.take (k - 1) ++ x :: chunk.drop k := by
      conv_lhs => rw [← List.take_append_drop (k - 1) chunk]
      rw [List.drop_eq_getElem_cons (show k - 1 < chunk.length by omega), show k - 1 + 1 = k by omega]
      rw [List.getElem?_eq_getElem (show k - 1 < chunk.length by omega)] at hx
      simp only [Option.some.injEq] at hx
      rw [hx]
    set pre := chunk.take (k - 1)
    set post := chunk.drop k
    have hprelen : pre.length = k - 1 := by rw [List.length_take]; omega
    have hwait : ¬ (r.fr.push pre).Full := by
      unfold Full push; simp only [List.length_append]; omega
    have hfull : ((r.fr.push pre).push [x]).Full := by
      unfold Full push; simp only [List.length_append, List.length_cons, List.length_nil]; omega
    set f := (r.fr.push pre).push [x]
    have hpush : r.fr.push chunk = f.push post := by
      rw [hchunk]; simp only [f, push_push]; simp
    -- the handler answers the long buffer as it answers the one cut behind `x`
    have hans : H r.mem (f.push post) = H r.mem f := by
      rw [hH r.mem (f.push post), cut_push hfull, ← hH r.mem f]
    have hlong : feed H r chunk =
        ⟨(H r.mem f).1, (f.move (H r.mem f).2).push post, r.frames ++ [(f.state, f.frame)]⟩ := by
      rw [feed_full hf, hpush, hans, move_push hfull, frame_push hfull]; rfl
    have hshort : feed H { r with fr := r.fr.push pre } [x] =
        ⟨(H r.mem f).1, f.move (H r.mem f).2, r.frames ++ [(f.state, f.frame)]⟩ := feed_full hfull
    rw [hlong] at h1 ⊢
    rw [hchunk, List.foldl_append, List.foldl_cons, foldl_wait pre r hwait, hshort, foldl_wait post _ h1]
  · rw [feed_wait hf, foldl_wait chunk r hf]

end Framer

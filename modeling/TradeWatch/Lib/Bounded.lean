import TradeWatch.Lib.Suffix

/-!
Containers with a capacity. A `BoundedDeque` makes room by discarding from the
other end, a `BoundedQueue` refuses what does not fit. Both carry their bound,
so that no run has to be searched for an overfull one.
-/

/-- `deque(maxlen=...)`. -/
structure BoundedDeque (α : Type) where
  maxlen : ℕ
  items : List α
  bounded : items.length ≤ maxlen

namespace BoundedDeque

variable {α : Type}

def empty (maxlen : ℕ) : BoundedDeque α := ⟨maxlen, [], by simp⟩

/-- `append`, which discards from the left. -/
def append (d : BoundedDeque α) (x : α) : BoundedDeque α where
  maxlen := d.maxlen
  items := (d.items ++ [x]).rtake d.maxlen
  bounded := by
    rw [Suffix.length_rtake]
    omega

/-- `appendleft`, which discards from the right. -/
def appendleft (d : BoundedDeque α) (x : α) : BoundedDeque α where
  maxlen := d.maxlen
  items := (x :: d.items).take d.maxlen
  bounded := by
    rw [List.length_take]
    omega

/-- The deque holds the most recent entries of a stream. -/
def Keeps (d : BoundedDeque α) (stream : List α) : Prop := d.items = stream.rtake d.maxlen

theorem keeps_empty (maxlen : ℕ) : (empty maxlen : BoundedDeque α).Keeps [] := by
  simp [Keeps, empty]

theorem Keeps.append {d : BoundedDeque α} {stream : List α} (h : d.Keeps stream) (x : α) :
    (d.append x).Keeps (stream ++ [x]) := by
  unfold Keeps at h ⊢
  simp only [BoundedDeque.append, h]
  exact Suffix.rtake_append_rtake d.maxlen stream x

/-- The deque holds the most recent entries of a stream, the newest in front. -/
def KeepsNewestFirst (d : BoundedDeque α) (stream : List α) : Prop :=
  d.items = stream.reverse.take d.maxlen

theorem keepsNewestFirst_empty (maxlen : ℕ) :
    (empty maxlen : BoundedDeque α).KeepsNewestFirst [] := by
  simp [KeepsNewestFirst, empty]

theorem KeepsNewestFirst.appendleft {d : BoundedDeque α} {stream : List α}
    (h : d.KeepsNewestFirst stream) (x : α) :
    (d.appendleft x).KeepsNewestFirst (stream ++ [x]) := by
  unfold KeepsNewestFirst at h ⊢
  rw [List.reverse_append, List.reverse_singleton, List.singleton_append]
  simp only [BoundedDeque.appendleft, h]
  cases d.maxlen with
  | zero => rfl
  | succ n => rw [List.take_succ_cons, List.take_succ_cons, List.take_take, min_eq_left (by omega)]

end BoundedDeque

/-- `Queue(maxsize=...)`, first in, first out. -/
structure BoundedQueue (α : Type) where
  maxsize : ℕ
  items : List α
  bounded : items.length ≤ maxsize

namespace BoundedQueue

variable {α : Type}

def empty (maxsize : ℕ) : BoundedQueue α := ⟨maxsize, [], by simp⟩

/-- `put_nowait`: `none` where it raises `QueueFull`. -/
def putNowait (q : BoundedQueue α) (x : α) : Option (BoundedQueue α) :=
  if h : q.items.length < q.maxsize then
    some
      { maxsize := q.maxsize
        items := q.items ++ [x]
        bounded := by
          rw [List.length_append, List.length_singleton]
          omega }
  else none

/-- An item offered to a queue is kept or, where the queue is full, dropped. -/
theorem items_offered (q : BoundedQueue α) (x : α) :
    ((q.putNowait x).getD q).items =
      if q.items.length < q.maxsize then q.items ++ [x] else q.items := by
  unfold putNowait
  split <;> rfl

theorem maxsize_offered (q : BoundedQueue α) (x : α) :
    ((q.putNowait x).getD q).maxsize = q.maxsize := by
  unfold putNowait
  split <;> rfl

/-- `get`: `none` where it waits. -/
def get (q : BoundedQueue α) : Option (α × BoundedQueue α) :=
  match hitems : q.items with
  | [] => none
  | x :: rest =>
      some (x,
        { maxsize := q.maxsize
          items := rest
          bounded := by
            have hbounded := q.bounded
            rw [hitems, List.length_cons] at hbounded
            omega })

theorem get_eq_some {q rest : BoundedQueue α} {x : α} (h : q.get = some (x, rest)) :
    q.items = x :: rest.items ∧ rest.maxsize = q.maxsize := by
  unfold get at h
  split at h
  · cases h
  · rename_i y items hitems
    obtain ⟨rfl, rfl⟩ := Prod.mk.inj (Option.some.inj h)
    exact ⟨hitems, rfl⟩

theorem get_eq_none {q : BoundedQueue α} (h : q.get = none) : q.items = [] := by
  unfold get at h
  split at h
  · assumption
  · cases h

end BoundedQueue

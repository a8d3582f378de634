/-!
# Bounded channels

A channel holds up to a number of items. Who sends into a full one waits in line and gets in, in the
order of arrival, when there is room; a later sender never overtakes one that waits. Seen as one
queue (`Channel.toList`), sending appends and receiving takes from the front, however senders wait.
One that waits may leave the line (`Channel.withdraw`), and what it had to send goes with it.

Channels belong to whatever runs the tasks. So they are a parameter of everything that uses them:
`Channels` says what each operation makes of the items in a channel and of those in line, and that
is all that is known. `Queue` is a channel of that kind which can be run.
-/

namespace SafePreview

/-- **Bounded channels, as far as they are relied on.** -/
class Channels where
  /-- A channel for items of one type. -/
  Carrier : Type → Type
  /-- What was sent and not yet received, oldest first. -/
  items {α : Type} : Carrier α → List α
  /-- Who waits to send, in the order of arrival. -/
  waiting {α : Type} : Carrier α → List α
  empty {α : Type} : Carrier α
  send {α : Type} (capacity : Nat) : Carrier α → α → Carrier α
  receive? {α : Type} : Carrier α → Option (α × Carrier α)
  admit? {α : Type} (capacity : Nat) : Carrier α → Option (α × Carrier α)
  withdraw {α : Type} (gone : α → Bool) : Carrier α → Carrier α
  items_empty {α : Type} : items (empty : Carrier α) = []
  waiting_empty {α : Type} : waiting (empty : Carrier α) = []
  /-- Who finds nobody in line and a place free gets in at once. -/
  send_free {α : Type} {capacity : Nat} {c : Carrier α} {a : α} :
    waiting c = [] → (items c).length < capacity →
      items (send capacity c a) = items c ++ [a] ∧ waiting (send capacity c a) = []
  /-- Everyone else waits, last in line. -/
  send_full {α : Type} {capacity : Nat} {c : Carrier α} {a : α} :
    waiting c ≠ [] ∨ capacity ≤ (items c).length →
      items (send capacity c a) = items c ∧ waiting (send capacity c a) = waiting c ++ [a]
  receive?_eq_none_iff {α : Type} {c : Carrier α} : receive? c = none ↔ items c = []
  /-- The oldest item is received, and nothing else changes. -/
  receive?_spec {α : Type} {c rest : Carrier α} {a : α} : receive? c = some (a, rest) →
    items c = a :: items rest ∧ waiting rest = waiting c
  admit?_eq_none_iff {α : Type} {capacity : Nat} {c : Carrier α} :
    admit? capacity c = none ↔ waiting c = [] ∨ capacity ≤ (items c).length
  /-- The first in line becomes the newest item. -/
  admit?_spec {α : Type} {capacity : Nat} {c rest : Carrier α} {a : α} :
    admit? capacity c = some (a, rest) →
      waiting c = a :: waiting rest ∧ items rest = items c ++ [a]
  /-- Some leave the line. What is in the channel stays there. -/
  withdraw_spec {α : Type} {gone : α → Bool} {c : Carrier α} :
    items (withdraw gone c) = items c ∧
      waiting (withdraw gone c) = (waiting c).filter fun a => !gone a

/-- **A bounded channel.** -/
def Channel [Channels] (α : Type) : Type := Channels.Carrier α

namespace Channel

variable [Channels] {α : Type} {capacity : Nat} {c rest : Channel α} {a : α}

/-- What was sent and not yet received, oldest first. -/
def items (c : Channel α) : List α := Channels.items c

/-- Who waits to send, in the order of arrival. -/
def waiting (c : Channel α) : List α := Channels.waiting c

/-- All that is in the channel or waits to be, oldest first. -/
def toList (c : Channel α) : List α := c.items ++ c.waiting

/-- The channel that nothing was sent into. -/
def empty : Channel α := Channels.empty (α := α)

/-- Whether a sender gets in at once. -/
def hasRoom (capacity : Nat) (c : Channel α) : Bool :=
  c.waiting.isEmpty && c.items.length < capacity

/-- **Sends an item**, in line with those that wait. -/
def send (capacity : Nat) (c : Channel α) (a : α) : Channel α := Channels.send capacity c a

/-- **Receives the oldest item.** -/
def receive? (c : Channel α) : Option (α × Channel α) := Channels.receive? c

/-- **Lets the first in line in**, if there is room. -/
def admit? (capacity : Nat) (c : Channel α) : Option (α × Channel α) := Channels.admit? capacity c

/-- **Lets some leave the line**, with what they wait to send. -/
def withdraw (gone : α → Bool) (c : Channel α) : Channel α := Channels.withdraw gone c

@[simp] theorem items_empty : (empty : Channel α).items = [] := Channels.items_empty

@[simp] theorem waiting_empty : (empty : Channel α).waiting = [] := Channels.waiting_empty

@[simp] theorem toList_empty : (empty : Channel α).toList = [] := by
  rw [toList, items_empty, waiting_empty, List.append_nil]

theorem hasRoom_iff : c.hasRoom capacity = true ↔ c.waiting = [] ∧ c.items.length < capacity := by
  rw [hasRoom, Bool.and_eq_true, List.isEmpty_iff, decide_eq_true_iff]

theorem send_of_hasRoom (h : c.hasRoom capacity = true) :
    (c.send capacity a).items = c.items ++ [a] ∧ (c.send capacity a).waiting = [] :=
  Channels.send_free (hasRoom_iff.1 h).1 (hasRoom_iff.1 h).2

theorem send_of_not_hasRoom (h : c.hasRoom capacity = false) :
    (c.send capacity a).items = c.items ∧ (c.send capacity a).waiting = c.waiting ++ [a] := by
  rw [hasRoom, Bool.and_eq_false_iff] at h
  exact Channels.send_full
    (h.imp List.isEmpty_eq_false_iff.1 fun hfull => Nat.not_lt.1 (of_decide_eq_false hfull))

/-- **Sending appends**, whether the sender gets in or waits. -/
theorem toList_send : (c.send capacity a).toList = c.toList ++ [a] := by
  cases hroom : c.hasRoom capacity with
  | true =>
    obtain ⟨hitems, hwaiting⟩ := send_of_hasRoom (a := a) hroom
    rw [toList, toList, hitems, hwaiting, (hasRoom_iff.1 hroom).1, List.append_nil, List.append_nil]
  | false =>
    obtain ⟨hitems, hwaiting⟩ := send_of_not_hasRoom (a := a) hroom
    rw [toList, toList, hitems, hwaiting, List.append_assoc]

theorem receive?_eq_none_iff : c.receive? = none ↔ c.items = [] := Channels.receive?_eq_none_iff

theorem items_of_receive? (h : c.receive? = some (a, rest)) : c.items = a :: rest.items :=
  (Channels.receive?_spec h).1

theorem waiting_of_receive? (h : c.receive? = some (a, rest)) : rest.waiting = c.waiting :=
  (Channels.receive?_spec h).2

theorem exists_receive? {as : List α} (h : c.items = a :: as) :
    ∃ rest, c.receive? = some (a, rest) := by
  cases hreceive : c.receive? with
  | none =>
    rw [receive?_eq_none_iff, h] at hreceive
    cases hreceive
  | some received =>
    have hitems := h.symm.trans (items_of_receive? hreceive)
    rw [List.cons.injEq] at hitems
    exact ⟨received.2, by rw [hitems.1]⟩

/-- **Receiving takes from the front.** -/
theorem toList_receive? (h : c.receive? = some (a, rest)) : c.toList = a :: rest.toList := by
  rw [toList, toList, items_of_receive? h, waiting_of_receive? h, List.cons_append]

theorem admit?_eq_none_iff :
    c.admit? capacity = none ↔ c.waiting = [] ∨ capacity ≤ c.items.length :=
  Channels.admit?_eq_none_iff

theorem waiting_of_admit? (h : c.admit? capacity = some (a, rest)) :
    c.waiting = a :: rest.waiting :=
  (Channels.admit?_spec h).1

theorem items_of_admit? (h : c.admit? capacity = some (a, rest)) : rest.items = c.items ++ [a] :=
  (Channels.admit?_spec h).2

/-- **Letting someone in keeps the order.** -/
theorem toList_admit? (h : c.admit? capacity = some (a, rest)) : rest.toList = c.toList := by
  rw [toList, toList, items_of_admit? h, waiting_of_admit? h, List.append_assoc]
  rfl

@[simp] theorem items_withdraw (gone : α → Bool) (c : Channel α) :
    (c.withdraw gone).items = c.items := Channels.withdraw_spec.1

@[simp] theorem waiting_withdraw (gone : α → Bool) (c : Channel α) :
    (c.withdraw gone).waiting = c.waiting.filter fun a => !gone a := Channels.withdraw_spec.2

/-- **Leaving the line keeps the order** of all others. -/
theorem toList_withdraw_sublist (gone : α → Bool) (c : Channel α) :
    (c.withdraw gone).toList.Sublist c.toList := by
  rw [toList, toList, items_withdraw, waiting_withdraw]
  exact List.filter_sublist.append_left _

end Channel

/-! ## A channel that runs -/

/-- **A queue with a line before it.** -/
structure Queue (α : Type) where
  items : List α
  waiting : List α

namespace Queue

variable {α : Type}

/-- Sends an item, in line with those that wait. -/
def send (capacity : Nat) (q : Queue α) (a : α) : Queue α :=
  if q.waiting.isEmpty && q.items.length < capacity then { q with items := q.items ++ [a] }
  else { q with waiting := q.waiting ++ [a] }

/-- Receives the oldest item. -/
def receive? (q : Queue α) : Option (α × Queue α) :=
  match q.items with
  | [] => none
  | a :: rest => some (a, { q with items := rest })

/-- Lets the first in line in, if there is room. -/
def admit? (capacity : Nat) (q : Queue α) : Option (α × Queue α) :=
  match q.waiting with
  | [] => none
  | a :: rest =>
    if q.items.length < capacity then some (a, ⟨q.items ++ [a], rest⟩) else none

/-- Lets some leave the line. -/
def withdraw (gone : α → Bool) (q : Queue α) : Queue α :=
  { q with waiting := q.waiting.filter fun a => !gone a }

end Queue

instance : Channels where
  Carrier := Queue
  items := Queue.items
  waiting := Queue.waiting
  empty := ⟨[], []⟩
  send := Queue.send
  receive? := Queue.receive?
  admit? := Queue.admit?
  withdraw := Queue.withdraw
  items_empty := rfl
  waiting_empty := rfl
  send_free := by
    intro α capacity q a hline hroom
    rw [Queue.send, if_pos (by simp [hline, hroom])]
    exact ⟨rfl, hline⟩
  send_full := by
    intro α capacity q a hfull
    have hclosed : ¬ (q.waiting.isEmpty && q.items.length < capacity) = true := by
      rcases hfull with hline | hfull
      · simp [hline]
      · simp [Nat.not_lt.2 hfull]
    rw [Queue.send, if_neg hclosed]
    exact ⟨rfl, rfl⟩
  receive?_eq_none_iff := by
    intro α q
    cases hitems : q.items with
    | nil => simp [Queue.receive?, hitems]
    | cons a rest => simp [Queue.receive?, hitems]
  receive?_spec := by
    intro α q rest a hreceive
    cases hitems : q.items with
    | nil => simp [Queue.receive?, hitems] at hreceive
    | cons b others =>
      simp only [Queue.receive?, hitems, Option.some.injEq, Prod.mk.injEq] at hreceive
      obtain ⟨rfl, rfl⟩ := hreceive
      exact ⟨rfl, rfl⟩
  admit?_eq_none_iff := by
    intro α capacity q
    cases hwaiting : q.waiting with
    | nil => simp [Queue.admit?, hwaiting]
    | cons a rest => simp [Queue.admit?, hwaiting]
  admit?_spec := by
    intro α capacity q rest a hadmit
    cases hwaiting : q.waiting with
    | nil => simp [Queue.admit?, hwaiting] at hadmit
    | cons b others =>
      simp only [Queue.admit?, hwaiting, Option.ite_none_right_eq_some, Option.some.injEq,
        Prod.mk.injEq] at hadmit
      obtain ⟨-, rfl, rfl⟩ := hadmit
      exact ⟨rfl, rfl⟩
  withdraw_spec := ⟨rfl, rfl⟩

end SafePreview

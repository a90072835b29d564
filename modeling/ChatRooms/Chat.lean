import Mathlib.Data.Set.Card
import ChatRooms.Client
import ChatRooms.Lib.Run

/-!
# A chat with rooms

What the program is for, in terms of its users: who takes part, under which name and in which room, what each
may ask for, and what is shown to whom.  There are no descriptors, buffers or bytes on a wire here, and any
type of participants will do.

* `ChatStep` are the moves of the chat, with what each of them shows to every participant;
* `Chat.inRoom_le`: in every run the rooms stay within their capacity;
* `Run.filter_shownTo`: all who stay in a room are shown one conversation.
-/

namespace ChatRooms

/-- A participant, as the others see it. -/
structure Person where
  name : Bytes
  room : Option ℕ
deriving DecidableEq, Repr

/-- The participants; `none` is nobody. -/
abbrev Chat (ι : Type) := ι → Option Person

/-- What a participant asks for. -/
inductive ChatRequest where
  | name (name : Bytes)
  | join (room : ℕ)
  | say (text : Bytes)
deriving DecidableEq, Repr

/-- What happens in a chat. -/
inductive ChatEvent (ι : Type) where
  | connect (c : ι)
  | leave (c : ι)
  | request (c : ι) (r : ChatRequest) (now : Timestamp)

section

variable {ι : Type}

/-- The room of a participant, if there are both. -/
def Chat.roomOf (chat : Chat ι) (c : ι) : Option ℕ := (chat c).bind Person.room

/-- The participants in a room. -/
def Chat.inRoom (chat : Chat ι) (n : ℕ) : Set ι := {c | chat.roomOf c = some n}

/-! ## Texts -/

def newNameText (name : Bytes) : Bytes := ascii "set name to " ++ name

def missingText (n : ℕ) : Bytes := ascii "room " ++ (decimal n ++ ascii " does not exist")

def alreadyText (n : ℕ) : Bytes := ascii "you are already in room " ++ decimal n

def fullText (n : ℕ) : Bytes := ascii "room " ++ (decimal n ++ ascii " is full")

def joinedText (n : ℕ) : Bytes := ascii "you have joined room " ++ decimal n

def outsideText : Bytes := ascii "you are not in a chat room: type '/join [room number]' to join a room"

/-! ## Moves -/

variable [DecidableEq ι]

/-- A reply is shown to who asked. -/
def replyTo (c : ι) (text : Bytes) : ι → List Printed := fun v => if v = c then [.reply text] else []

/-- A chat message is shown to everybody in the room, its sender included. -/
def Chat.shownIn (chat : Chat ι) (n : ℕ) (p : Printed) : ι → List Printed :=
  fun v => if chat.roomOf v = some n then [p] else []

/-- The moves of a chat with rooms 1 to `rooms` for `capacity` participants each, and what they show to whom.
Who asks for a full room loses its own. -/
inductive ChatStep (rooms capacity : ℕ) : Chat ι → ChatEvent ι → (ι → List Printed) → Chat ι → Prop
  | connect (c : ι) {chat : Chat ι} (new : chat c = none) :
      ChatStep rooms capacity chat (.connect c) (fun _ => [])
        (Function.update chat c (some ⟨anonymous, none⟩))
  | leave (c : ι) {chat : Chat ι} {p : Person} (known : chat c = some p) :
      ChatStep rooms capacity chat (.leave c) (fun _ => []) (Function.update chat c none)
  | name (c : ι) (name : Bytes) (now : Timestamp) {chat : Chat ι} {p : Person} (known : chat c = some p) :
      ChatStep rooms capacity chat (.request c (.name name) now) (replyTo c (newNameText name))
        (Function.update chat c (some { p with name }))
  | missing (c : ι) (n : ℕ) (now : Timestamp) {chat : Chat ι} {p : Person} (known : chat c = some p)
      (absent : n = 0 ∨ rooms < n) :
      ChatStep rooms capacity chat (.request c (.join n) now) (replyTo c (missingText n)) chat
  | already (c : ι) (n : ℕ) (now : Timestamp) {chat : Chat ι} {p : Person} (known : chat c = some p)
      (present : 0 < n ∧ n ≤ rooms) (inside : p.room = some n) :
      ChatStep rooms capacity chat (.request c (.join n) now) (replyTo c (alreadyText n)) chat
  | full (c : ι) (n : ℕ) (now : Timestamp) {chat : Chat ι} {p : Person} (known : chat c = some p)
      (present : 0 < n ∧ n ≤ rooms) (outside : p.room ≠ some n) (full : capacity ≤ (chat.inRoom n).encard) :
      ChatStep rooms capacity chat (.request c (.join n) now) (replyTo c (fullText n))
        (Function.update chat c (some { p with room := none }))
  | joined (c : ι) (n : ℕ) (now : Timestamp) {chat : Chat ι} {p : Person} (known : chat c = some p)
      (present : 0 < n ∧ n ≤ rooms) (outside : p.room ≠ some n) (free : (chat.inRoom n).encard < capacity) :
      ChatStep rooms capacity chat (.request c (.join n) now) (replyTo c (joinedText n))
        (Function.update chat c (some { p with room := some n }))
  | outside (c : ι) (text : Bytes) (now : Timestamp) {chat : Chat ι} {p : Person} (known : chat c = some p)
      (outside : p.room = none) :
      ChatStep rooms capacity chat (.request c (.say text) now) (replyTo c outsideText) chat
  | said (c : ι) (text : Bytes) (now : Timestamp) {chat : Chat ι} {p : Person} {n : ℕ}
      (known : chat c = some p) (inside : p.room = some n) :
      ChatStep rooms capacity chat (.request c (.say text) now) (chat.shownIn n (.chat now p.name text)) chat

/-- A move of a chat in a trace. -/
abbrev ChatTurn (ι : Type) := Turn (Chat ι) (ChatEvent ι) (ι → List Printed)

/-- A trace of a chat. -/
abbrev ChatTrace (ι : Type) := List (ChatTurn ι)

/-- Everything that was shown to a participant. -/
def shownTo (v : ι) (trace : ChatTrace ι) : List Printed := trace.flatMap fun t => t.output v

omit [DecidableEq ι] in
@[simp] theorem shownTo_concat (v : ι) (trace : ChatTrace ι) (t : ChatTurn ι) :
    shownTo v (trace ++ [t]) = shownTo v trace ++ t.output v := by
  simp [shownTo]

/-- What a participant asked for in a move. -/
def requestIn (c : ι) (t : ChatTurn ι) : List ChatRequest :=
  match t.event with
  | .request asking r _ => if asking = c then [r] else []
  | _ => []

/-- Everything that a participant asked for. -/
def requestsOf (c : ι) (trace : ChatTrace ι) : List ChatRequest := trace.flatMap (requestIn c)

@[simp] theorem requestsOf_concat (c : ι) (trace : ChatTrace ι) (t : ChatTurn ι) :
    requestsOf c (trace ++ [t]) = requestsOf c trace ++ requestIn c t := by
  simp [requestsOf]

/-! ## Capacity -/

/-- Who is in a room after one participant has changed was in it before, or is the one that changed. -/
theorem Chat.inRoom_update (chat : Chat ι) (c : ι) (p : Option Person) (n : ℕ) :
    Chat.inRoom (Function.update chat c p) n ⊆
      if p.bind Person.room = some n then insert c (chat.inRoom n) else chat.inRoom n := by
  intro v hv
  by_cases hvc : v = c
  · subst hvc
    have hp : p.bind Person.room = some n := by simpa [inRoom, roomOf] using hv
    rw [if_pos hp]
    exact Set.mem_insert _ _
  · have hold : v ∈ chat.inRoom n := by simpa [inRoom, roomOf, hvc] using hv
    split
    · exact Set.mem_insert_of_mem _ hold
    · exact hold

/-- A move keeps the rooms within their capacity. -/
theorem ChatStep.inRoom_le {rooms capacity : ℕ} {chat chat' : Chat ι} {event : ChatEvent ι}
    {shown : ι → List Printed} (step : ChatStep rooms capacity chat event shown chat')
    (h : ∀ n, (chat.inRoom n).encard ≤ capacity) (n : ℕ) : (chat'.inRoom n).encard ≤ capacity := by
  have kept {c : ι} {p : Option Person} (hp : p.bind Person.room = some n → chat.roomOf c = some n) :
      (Chat.inRoom (Function.update chat c p) n).encard ≤ capacity := by
    apply le_trans _ (h n)
    apply Set.encard_le_encard
    apply (chat.inRoom_update c p n).trans
    split
    · rename_i hroom
      exact Set.insert_subset (hp hroom) le_rfl
    · exact le_rfl
  cases step with
  | connect c new => exact kept (by simp)
  | leave c known => exact kept (by simp)
  | name c name now known => exact kept (by simp [Chat.roomOf, known])
  | missing c m now known absent => exact h n
  | already c m now known present inside => exact h n
  | full c m now known present outside full => exact kept (by simp)
  | joined c m now known present outside free =>
    by_cases hn : m = n
    · subst hn
      apply le_trans (Set.encard_le_encard ((chat.inRoom_update c _ m).trans (if_pos rfl).subset))
      exact (Set.encard_insert_le _ _).trans (Order.add_one_le_of_lt free)
    · exact kept (by simp [hn])
  | outside c text now known outside => exact h n
  | said c text now known inside => exact h n

/-- In every run from an empty chat the rooms stay within their capacity. -/
theorem Chat.inRoom_le {rooms capacity : ℕ} {trace : ChatTrace ι} {chat : Chat ι}
    (run : Run (ChatStep rooms capacity) (fun _ => none) trace chat) (n : ℕ) :
    (chat.inRoom n).encard ≤ capacity := by
  have hall := run.invariant (fun chat : Chat ι => ∀ n, (chat.inRoom n).encard ≤ capacity) ?_
    fun t _ step h => step.inRoom_le h
  · exact hall n
  · intro n
    simp [inRoom, roomOf]

/-! ## Conversations -/

/-- A message of a participant, and not a reply. -/
def Printed.isChat : Printed → Bool
  | .chat .. => true
  | .reply _ => false

omit [DecidableEq ι] in
/-- What is said in a room in a move. -/
def saidIn (n : ℕ) (t : ChatTurn ι) : List Printed :=
  match t.event with
  | .request c (.say text) now =>
    match t.before c with
    | some p => if p.room = some n then [.chat now p.name text] else []
    | none => []
  | _ => []

/-- Of the messages of participants a move shows to who is in a room what is said there. -/
theorem ChatStep.filter_shown {rooms capacity : ℕ} {chat chat' : Chat ι} {event : ChatEvent ι}
    {shown : ι → List Printed} (step : ChatStep rooms capacity chat event shown chat') {v : ι} {n : ℕ}
    (h : chat.roomOf v = some n) :
    (shown v).filter Printed.isChat = saidIn n ⟨chat, event, shown, chat'⟩ := by
  have reply (c : ι) (text : Bytes) : (replyTo c text v).filter Printed.isChat = [] := by
    by_cases hv : v = c <;> simp [replyTo, Printed.isChat, hv]
  cases step with
  | connect c new => simp [saidIn]
  | leave c known => simp [saidIn]
  | name c name now known => simp [saidIn, reply]
  | missing c m now known absent => simp [saidIn, reply]
  | already c m now known present inside => simp [saidIn, reply]
  | full c m now known present outside full => simp [saidIn, reply]
  | joined c m now known present outside free => simp [saidIn, reply]
  | outside c text now known outside => simp [saidIn, reply, known, outside]
  | @said c text now _ p m known inside =>
    by_cases hm : n = m
    · subst hm
      simp [saidIn, Chat.shownIn, Printed.isChat, known, inside, h]
    · simp [saidIn, Chat.shownIn, known, inside, h, hm, Ne.symm hm]

/-- Who stays in a room is shown the conversation there, in its order. -/
theorem Run.filter_shownTo {rooms capacity : ℕ} {chat chat' : Chat ι} {trace : ChatTrace ι}
    (run : Run (ChatStep rooms capacity) chat trace chat') {v : ι} {n : ℕ}
    (h : ∀ t ∈ trace, t.before.roomOf v = some n) :
    (shownTo v trace).filter Printed.isChat = trace.flatMap (saidIn n) := by
  induction run with
  | start => rfl
  | @turn trace chat chat' event shown run step ih =>
    have hstay := h _ (List.mem_append_right _ List.mem_cons_self)
    rw [shownTo_concat, List.filter_append, ih fun t ht => h t (List.mem_append_left _ ht),
      step.filter_shown hstay, List.flatMap_append, List.flatMap_singleton]

end

end ChatRooms

import ChatRooms.Client

/-!
# The buffers of a command

`execute_command` scans the words of a line into `command` and `new_name`, and `send_name_message`
copies `new_name` into a message.  The widths of the conversions do not belong to the sizes of the
arrays: `%5s` stores up to six bytes into the five of `command`, and `%100s` up to 101 into the fifty of
`new_name`.  `staysInside_iff` says which lines are harmless.
-/

namespace ChatRooms

/-- The word behind the slash. -/
def commandWord (line : Bytes) : Bytes := word line.tail

/-- The word behind the command. -/
def argumentWord (line : Bytes) : Bytes := word (afterWord line.tail)

/-- No conversion and no copy leaves its array, and the name that is sent, if any, is the word behind
the command. -/
def StaysInside (env : ClientEnv) (line : Bytes) : Prop :=
  ∃ executed, executeCommand env line = .ok executed ∧
    ∀ p ∈ executed.sent, ∀ m, p.msg = .name m → cstr m.name.toList = argumentWord line

/-- The command leaves room for its NUL, and so does the name behind `/name`. -/
def WordsFit (line : Bytes) : Prop :=
  (commandWord line).length < commandSizeLimit ∧
    (commandWord line = ascii "name" → (argumentWord line).length < nameSizeLimit)

instance (line : Bytes) : Decidable (WordsFit line) :=
  inferInstanceAs (Decidable (_ ∧ (_ → _)))

/-! ## Conversions -/

/-- `/%5s` converts a word of up to five characters. -/
theorem sscanf_command {rest : Bytes} (hne : word rest ≠ []) (hfits : (word rest).length ≤ 5)
    (fmt : List Directive) :
    sscanf (47 :: rest) (.char 47 :: .str 5 :: fmt) = .word (word rest) :: sscanf (afterWord rest) fmt := by
  rw [sscanf, if_pos rfl, sscanf_str_of_fits hne hfits]

/-- `%100s` behind the command: nothing, or the first hundred characters of a word. -/
theorem sscanf_argument (input : Bytes) :
    sscanf input [.space, .str 100] =
      if word input = [] then [] else [.word ((word input).take 100)] := by
  have hword : word (skipSpace input) = word input := by rw [word, skipSpace_skipSpace, word]
  rw [sscanf]
  split
  · rename_i hnil
    exact sscanf_str_nil (hword.trans hnil) 100 []
  · rename_i hne
    rw [← hword] at hne ⊢
    rcases le_total (word (skipSpace input)).length 100 with hfits | hlong
    · rw [sscanf_str_of_fits hne hfits, List.take_of_length_le hfits, sscanf]
    · rw [sscanf_str_of_long (by decide) hlong, sscanf]

/-! ## What a command stores and sends -/

/-- A command of five characters or more: the NUL is stored behind `command`. -/
theorem executeCommand_of_long_command (env : ClientEnv) {rest : Bytes} (h : 5 ≤ (word rest).length) :
    executeCommand env (47 :: rest) = .error (.write commandSizeLimit commandSizeLimit) := by
  have hlen : ((word rest).take 5).length = 5 := List.length_take_of_le h
  have hfault := copyInto_string_of_ge env.command hlen.ge
  rw [executeCommand, sscanf, if_pos rfl, sscanf_str_of_long (by decide) h, sscanf]
  dsimp only
  rw [hfault, Checked.error_bind]

/-- Without a command nothing is stored. -/
theorem executeCommand_of_no_word (env : ClientEnv) {rest : Bytes} (h : word rest = []) :
    executeCommand env (47 :: rest) = .ok { sent := [], exited := false } := by
  rw [executeCommand, sscanf, if_pos rfl, sscanf_str_nil h]
  rfl

section Fitting

variable (env : ClientEnv) {rest : Bytes} (hnul : 0 ∉ rest)

include hnul

/-- A conversion into `command` leaves the word behind the slash there. -/
theorem command_conversion (hfits : (word rest).length < commandSizeLimit)
    (dst : CArray UInt8 commandSizeLimit) :
    ∃ command, copyInto dst (word rest ++ [0]) = .ok command ∧ cstr command.toList = word rest := by
  obtain ⟨command, hcopy, -, hstr⟩ := copyInto_string dst (fun h => hnul (mem_of_mem_word h)) hfits
  exact ⟨command, hcopy, hstr⟩

/-- What `/name` does: it scans a second word, and sends the one it finds. -/
theorem executeCommand_name (hname : word rest = ascii "name") :
    executeCommand env (47 :: rest) =
      if word (afterWord rest) = [] then .ok { sent := [], exited := false }
      else do
        let newName ← copyInto env.newName ((word (afterWord rest)).take 100 ++ [0])
        return { sent := (← sendNameMessage env newName).1, exited := false } := by
  have hne : word rest ≠ [] := by
    rw [hname]
    decide
  have hfits : (word rest).length < commandSizeLimit := by
    rw [hname]
    decide
  obtain ⟨command, hcopy, hstr⟩ := command_conversion hnul hfits env.command
  obtain ⟨command', hcopy', -⟩ := command_conversion hnul hfits command
  rw [executeCommand, sscanf_command hne hfits.le, sscanf]
  dsimp only
  rw [hcopy, Checked.ok_bind, hstr, if_pos hname, sscanf_command hne hfits.le, sscanf_argument]
  by_cases hargument : word (afterWord rest) = []
  · rw [if_pos hargument, if_pos hargument]
    rfl
  · rw [if_neg hargument, if_neg hargument]
    dsimp only
    rw [hcopy', Checked.ok_bind]

/-- Commands with another word of at most four characters commit no fault and send no name. -/
theorem executeCommand_other (hne : word rest ≠ []) (hfits : (word rest).length < commandSizeLimit)
    (hname : word rest ≠ ascii "name") :
    ∃ executed, executeCommand env (47 :: rest) = .ok executed ∧
      ∀ p ∈ executed.sent, ∃ m, p.msg = .join m := by
  obtain ⟨command, hcopy, hstr⟩ := command_conversion hnul hfits env.command
  obtain ⟨command', hcopy', -⟩ := command_conversion hnul hfits command
  rw [executeCommand, sscanf_command hne hfits.le, sscanf]
  dsimp only
  rw [hcopy, Checked.ok_bind, hstr, if_neg hname]
  split
  · rw [sscanf_command hne hfits.le]
    split
    · rename_i roomId hscan
      have hterm : Message.Terminated (.join ⟨roomId⟩) := trivial
      obtain ⟨sent, status, hsend⟩ := sendMessage_ok env hterm
      rw [List.cons.injEq, Scanned.word.injEq] at hscan
      rw [← hscan.1, hcopy', Checked.ok_bind, sendJoinMessage, hsend]
      exact ⟨_, rfl, fun p hp => ⟨_, msg_of_mem_sendMessage hsend hp⟩⟩
    · exact ⟨_, rfl, by simp⟩
  · split
    · exact ⟨_, rfl, by simp⟩
    · exact ⟨_, rfl, by simp⟩

/-- A name of fifty characters or more: what is stored does not end within `new_name`. -/
theorem executeCommand_of_long_name (hname : word rest = ascii "name")
    (h : nameSizeLimit ≤ (word (afterWord rest)).length) :
    executeCommand env (47 :: rest) = .error (.write nameSizeLimit nameSizeLimit) := by
  have hne : word (afterWord rest) ≠ [] := by
    intro hnil
    rw [hnil] at h
    exact absurd h (by decide)
  have hstored : nameSizeLimit ≤ ((word (afterWord rest)).take 100).length := by
    rw [List.length_take]
    exact le_min (by decide) h
  rw [executeCommand_name env hnul hname, if_neg hne, copyInto_string_of_ge env.newName hstored,
    Checked.error_bind]

/-- A name that fits is stored and sent as it is. -/
theorem executeCommand_of_short_name (hname : word rest = ascii "name")
    (h : (word (afterWord rest)).length < nameSizeLimit) :
    ∃ executed, executeCommand env (47 :: rest) = .ok executed ∧
      ∀ p ∈ executed.sent, ∃ m, p.msg = .name m ∧ cstr m.name.toList = word (afterWord rest) := by
  have hle : (word (afterWord rest)).length ≤ 100 := h.le.trans (by decide)
  have hnul' : 0 ∉ word (afterWord rest) := fun hmem => hnul (mem_of_mem_afterWord (mem_of_mem_word hmem))
  rw [executeCommand_name env hnul hname, List.take_of_length_le hle]
  split
  · exact ⟨_, rfl, by simp⟩
  · obtain ⟨newName, hcopy, hterm, hstr⟩ := copyInto_string env.newName hnul' h
    obtain ⟨name, hstrcpy, hterm', hstr'⟩ := strcpy_of_lt env.locals.name.name hterm (length_cstr_lt hterm)
    have hmessage : Message.Terminated (.name ⟨name⟩) := hterm'
    obtain ⟨sent, status, hsend⟩ := sendMessage_ok env hmessage
    rw [hcopy, Checked.ok_bind, sendNameMessage, hstrcpy, Checked.ok_bind, hsend]
    exact ⟨_, rfl, fun p hp => ⟨_, msg_of_mem_sendMessage hsend hp, hstr'.trans hstr⟩⟩

/-- For every line that begins with a slash, of whatever length and with whatever words and white
space. -/
theorem staysInside_iff : StaysInside env (47 :: rest) ↔ WordsFit (47 :: rest) := by
  constructor
  · rintro ⟨executed, hexecuted, -⟩
    constructor
    · by_contra hlong
      have hfault := executeCommand_of_long_command env (show 5 ≤ (word rest).length from not_lt.1 hlong)
      rw [hfault] at hexecuted
      cases hexecuted
    · intro hname
      by_contra hlong
      have hfault := executeCommand_of_long_name env hnul hname (not_lt.1 hlong)
      rw [hfault] at hexecuted
      cases hexecuted
  · rintro ⟨hcommand, hargument⟩
    by_cases hne : word rest = []
    · rw [StaysInside, executeCommand_of_no_word env hne]
      exact ⟨_, rfl, by simp⟩
    · by_cases hname : word rest = ascii "name"
      · obtain ⟨executed, hexecuted, hsent⟩ := executeCommand_of_short_name env hnul hname (hargument hname)
        refine ⟨executed, hexecuted, fun p hp m hm => ?_⟩
        obtain ⟨m', hm', hstr⟩ := hsent p hp
        rw [hm', Message.name.injEq] at hm
        rw [← hm]
        exact hstr
      · obtain ⟨executed, hexecuted, hsent⟩ := executeCommand_other env hnul hne hcommand hname
        refine ⟨executed, hexecuted, fun p hp m hm => ?_⟩
        obtain ⟨m', hm'⟩ := hsent p hp
        rw [hm'] at hm
        cases hm

end Fitting

/-- The line `/name Bob`. -/
theorem staysInside_bob : StaysInside .steady (ascii "/name Bob\n") :=
  (staysInside_iff .steady (show 0 ∉ ascii "name Bob\n" by decide)).2 (by decide)

/-- The line `/hello` makes `%5s` store six bytes in the five of `command`, and `/name` with 50 letters
makes `%100s` store 51 bytes in the 50 of `new_name`. -/
theorem hello_leaves_command :
    executeCommand .steady (ascii "/hello\n") = .error (.write 5 5) ∧
      ¬ StaysInside .steady (ascii "/hello\n") ∧
      executeCommand .steady (ascii "/name " ++ List.replicate 50 97) = .error (.write 50 50) ∧
      ¬ StaysInside .steady (ascii "/name " ++ List.replicate 50 97) := by
  have hcommand : executeCommand .steady (ascii "/hello\n") = .error (.write 5 5) :=
    executeCommand_of_long_command .steady (show 5 ≤ (word (ascii "hello\n")).length by decide)
  have hname : executeCommand .steady (ascii "/name " ++ List.replicate 50 97) = .error (.write 50 50) :=
    executeCommand_of_long_name .steady (show 0 ∉ ascii "name " ++ List.replicate 50 97 by decide)
      (by decide) (by decide)
  refine ⟨hcommand, ?_, hname, ?_⟩
  · rintro ⟨executed, hexecuted, -⟩
    rw [hcommand] at hexecuted
    cases hexecuted
  · rintro ⟨executed, hexecuted, -⟩
    rw [hname] at hexecuted
    cases hexecuted

end ChatRooms

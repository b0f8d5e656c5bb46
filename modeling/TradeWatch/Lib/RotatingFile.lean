import Mathlib.Tactic

/-!
A log that is kept in files of bounded size. A message goes to the end of the file
that is open, unless the file would reach the bound; then the open file becomes the
newest of the backups, and the oldest backup is given up when there are too many. A
message is never cut: what is on disk, oldest file first, is an end of everything
that was written.
-/

namespace RotatingFile

variable {β : Type*}

/-- The files on disk, the newest backup first. -/
structure Files (β : Type*) where
  current : List β
  backups : List (List β)

def Files.empty : Files β := ⟨[], []⟩

/-- Everything on disk, the oldest file first. -/
def Files.kept (files : Files β) : List β := files.backups.reverse.flatten ++ files.current

variable (maxBytes backupCount : ℕ)

/-- An empty file is never rolled over. -/
def shouldRollover (files : Files β) (message : List β) : Bool :=
  !files.current.isEmpty && maxBytes ≤ files.current.length + message.length

def doRollover (files : Files β) : Files β :=
  ⟨[], (files.current :: files.backups).take backupCount⟩

def emit (files : Files β) (message : List β) : Files β :=
  let files := if shouldRollover maxBytes files message then doRollover backupCount files else files
  { files with current := files.current ++ message }

/-- The files after some messages. -/
def run (messages : List (List β)) : Files β :=
  messages.foldl (emit maxBytes backupCount) .empty

/-- How the messages are spread over the files: some are lost, each backup holds a
group of whole messages, and the open file holds the rest. -/
structure Spread (messages : List (List β)) (files : Files β) (lost : List (List β))
    (shelved : List (List (List β))) (recent : List (List β)) : Prop where
  messages_eq : messages = lost ++ (shelved.reverse.flatten ++ recent)
  current_eq : files.current = recent.flatten
  backups_eq : files.backups = shelved.map List.flatten
  full : lost ≠ [] → shelved.length = backupCount
  fits : shelved.length ≤ backupCount

section Steps

variable {maxBytes backupCount} {messages lost recent : List (List β)} {files : Files β}
  {shelved : List (List (List β))}

theorem Spread.rollover (h : Spread backupCount messages files lost shelved recent) :
    Spread backupCount messages (doRollover backupCount files)
      (lost ++ ((recent :: shelved).drop backupCount).reverse.flatten)
      ((recent :: shelved).take backupCount) [] where
  messages_eq := by
    have hsplit : (recent :: shelved).reverse =
        ((recent :: shelved).drop backupCount).reverse ++
          ((recent :: shelved).take backupCount).reverse := by
      rw [← List.reverse_append, List.take_append_drop]
    have hflat := congrArg List.flatten hsplit
    rw [List.reverse_cons, List.flatten_append, List.flatten_append, List.flatten_singleton]
      at hflat
    rw [h.messages_eq, hflat, List.append_nil, List.append_assoc]
  current_eq := rfl
  backups_eq := by
    rw [doRollover, h.current_eq, h.backups_eq, ← List.map_cons, List.map_take]
  full hne := by
    have hfits := h.fits
    rw [List.length_take, List.length_cons]
    by_cases hlost : lost = []
    · have hdrop : (recent :: shelved).drop backupCount ≠ [] := by
        rintro hnil
        rw [hlost, hnil] at hne
        exact hne rfl
      have hlong := List.length_pos_of_ne_nil hdrop
      rw [List.length_drop, List.length_cons] at hlong
      omega
    · have hfull := h.full hlost
      omega
  fits := List.length_take_le _ _

theorem Spread.append (h : Spread backupCount messages files lost shelved recent)
    (message : List β) :
    Spread backupCount (messages ++ [message])
      { files with current := files.current ++ message } lost shelved (recent ++ [message]) where
  messages_eq := by
    rw [h.messages_eq, List.append_assoc, List.append_assoc]
  current_eq := by
    rw [h.current_eq, List.flatten_append, List.flatten_singleton]
  backups_eq := h.backups_eq
  full := h.full
  fits := h.fits

/-- One message. -/
theorem Spread.emit (h : Spread backupCount messages files lost shelved recent)
    (message : List β) :
    ∃ lost' shelved' recent', Spread backupCount (messages ++ [message])
      (emit maxBytes backupCount files message) lost' shelved' recent' := by
  unfold RotatingFile.emit
  split_ifs with hfull
  · exact ⟨_, _, _, h.rollover.append message⟩
  · exact ⟨_, _, _, h.append message⟩

end Steps

section Sizes

variable {maxBytes backupCount} {longest : ℕ}

/-- What is known of the sizes: no file is over the bound by more than a message
asks for, and no backup was closed while there was room for the longest message. -/
structure Sized (maxBytes longest : ℕ) (files : Files β) : Prop where
  current_le : files.current.length ≤ max maxBytes longest
  backup_le : ∀ file ∈ files.backups, file.length ≤ max maxBytes longest
  closed : ∀ file ∈ files.backups, maxBytes ≤ file.length + longest

theorem Sized.emit {files : Files β} (h : Sized maxBytes longest files) {message : List β}
    (hmessage : message.length ≤ longest) :
    Sized maxBytes longest (emit maxBytes backupCount files message) := by
  unfold RotatingFile.emit shouldRollover
  by_cases hroll : (!files.current.isEmpty &&
      decide (maxBytes ≤ files.current.length + message.length)) = true
  · rw [if_pos hroll]
    simp only [Bool.and_eq_true, decide_eq_true_eq] at hroll
    have hold : ∀ file ∈ (files.current :: files.backups).take backupCount,
        file = files.current ∨ file ∈ files.backups :=
      fun file hfile => List.mem_cons.mp (List.mem_of_mem_take hfile)
    refine ⟨?_, ?_, ?_⟩
    · simp only [doRollover, List.nil_append]
      omega
    · intro file hfile
      rcases hold file hfile with rfl | hbackup
      · exact h.current_le
      · exact h.backup_le file hbackup
    · intro file hfile
      rcases hold file hfile with rfl | hbackup
      · omega
      · exact h.closed file hbackup
  · rw [if_neg hroll]
    refine ⟨?_, h.backup_le, h.closed⟩
    rw [List.length_append]
    cases hcurrent : files.current with
    | nil =>
        rw [List.length_nil]
        omega
    | cons first rest =>
        rw [hcurrent] at hroll
        simp only [List.isEmpty_cons, Bool.not_false, Bool.true_and, decide_eq_true_eq] at hroll
        omega

end Sizes

/-- However much is written: the files hold the last messages, each of them whole;
no file outgrows the bound; no backup was closed while there was room for the longest
message; and messages are only lost when there are as many backups as there may be. -/
theorem run_keeps {messages : List (List β)} {longest : ℕ}
    (hlongest : ∀ message ∈ messages, message.length ≤ longest) :
    ∃ lost kept, messages = lost ++ kept ∧ (run maxBytes backupCount messages).kept = kept.flatten ∧
      Sized maxBytes longest (run maxBytes backupCount messages) ∧
      (run maxBytes backupCount messages).backups.length ≤ backupCount ∧
      (lost ≠ [] → (run maxBytes backupCount messages).backups.length = backupCount) := by
  have hinv : ∀ before : List (List β), (∀ message ∈ before, message.length ≤ longest) →
      (∃ lost shelved recent, Spread backupCount before (run maxBytes backupCount before) lost
          shelved recent) ∧ Sized maxBytes longest (run maxBytes backupCount before) := by
    intro before
    induction before using List.reverseRecOn with
    | nil =>
        intro _
        refine ⟨⟨[], [], [], rfl, rfl, rfl, fun h => absurd rfl h, Nat.zero_le _⟩, ?_⟩
        exact ⟨Nat.zero_le _, by simp [run, Files.empty], by simp [run, Files.empty]⟩
    | append_singleton earlier message ih =>
        intro hall
        obtain ⟨⟨lost, shelved, recent, hspread⟩, hsized⟩ :=
          ih (fun m hm => hall m (List.mem_append_left _ hm))
        have hlast := hall message (by simp)
        rw [run, List.foldl_append, List.foldl_cons, List.foldl_nil]
        exact ⟨hspread.emit message, hsized.emit hlast⟩
  obtain ⟨⟨lost, shelved, recent, hspread⟩, hsized⟩ := hinv messages hlongest
  refine ⟨lost, shelved.reverse.flatten ++ recent, hspread.messages_eq, ?_, hsized, ?_, ?_⟩
  · rw [Files.kept, hspread.current_eq, hspread.backups_eq, List.flatten_append,
      ← List.map_reverse]
    congr 1
    exact List.flatten_flatten.symm
  · rw [hspread.backups_eq, List.length_map]
    exact hspread.fits
  · intro hlost
    rw [hspread.backups_eq, List.length_map, hspread.full hlost]

/-- What is on disk is as long as its files together allow. -/
theorem Files.kept_length_le {files : Files β} {most : ℕ}
    (h : ∀ file ∈ files.current :: files.backups, file.length ≤ most) :
    files.kept.length ≤ (files.backups.length + 1) * most := by
  have hsum : ∀ groups : List (List β), (∀ file ∈ groups, file.length ≤ most) →
      groups.flatten.length ≤ groups.length * most := by
    intro groups hgroups
    rw [List.length_flatten, ← List.length_map (f := List.length)]
    exact List.sum_le_card_nsmul _ _ (by simpa using hgroups)
  obtain ⟨hcurrent, hbackups⟩ := List.forall_mem_cons.mp h
  have hshelved := hsum files.backups.reverse (by simpa using hbackups)
  rw [List.length_reverse] at hshelved
  rw [kept, List.length_append, Nat.succ_mul]
  omega

end RotatingFile

/-
  File:      Emyx/KshellLoop.lean
  Subject:   THE KERNEL SHELL (kshell.c): from the keys to the commands.

  Keys come in interrupts, `kshell_poll` runs in the main loop. A key that comes between the end of a
  line and the poll still changes the line; a key that comes while a command runs is lost, because
  `kshell_init` follows the command.

  * `kshellExec`, `cmdUserspawn`, `kshellPoll` -- the functions, with every access to the buffer
    checked;
  * `dispatch` -- what a line means; `Prompt.step` -- a line editor with an end of line that waits;
  * **`kshell_refines`** -- for every sequence of keys and polls, the commands that are run are those
    of the line editor.
-/
import Emyx.Kshell

namespace Emyx

open Lib

/-! ## 1. The functions -/

/-- The functions in the table of commands. -/
inductive Command where
  | help | clear | ticks | irq | panic | reboot | pagefault | vmmtest | heaptest | initramfs
  | userspawn | userland | yield
  deriving DecidableEq, Repr

/-- `commands`, without the descriptions. -/
def commands : List (String × Command) :=
  [("help", .help), ("clear", .clear), ("ticks", .ticks), ("irq", .irq), ("panic", .panic),
    ("reboot", .reboot), ("pagefault", .pagefault), ("vmmtest", .vmmtest), ("heaptest", .heaptest),
    ("initramfs", .initramfs), ("userspawn", .userspawn), ("userland", .userland),
    ("yield", .yield)]

/-- What comes of a line: a call of one of the functions, with what `cmd_userspawn` does spelled
    out. -/
inductive Action where
  | nothing
  | unknown
  | call (c : Command)
  | usage
  | spawn (path : List Byte)
  deriving DecidableEq, Repr

/-- `memcmp(buffer, name, size) == 0` -/
def memcmpEq (buffer : Buffer Byte 128) (name : List Byte) : Nat → Nat → Except Undefined Bool
  | 0, _ => return true
  | n + 1, i => do
    let a ← buffer.get i
    let b ← (match name[i]? with
      | some b => Except.ok b
      | none => .error (.index i name.length))
    if a ≠ b then return false else memcmpEq buffer name n (i + 1)

/-- `while (input_cmd_len < length && buffer[input_cmd_len] != ' ') input_cmd_len++;` -/
def commandLength (k : Kshell) : Nat → Nat → Except Undefined Nat
  | 0, _ => .error .hang
  | fuel + 1, n => do
    if n < k.length then do
      if (← k.buffer.get n) ≠ 0x20#8 then commandLength k fuel (n + 1) else return n
    else return n

/-- The loop over the commands: the first one whose name is the first word. -/
def findCommand (k : Kshell) (size : Nat) : List (String × Command) → Except Undefined (Option Command)
  | [] => return none
  | (name, c) :: rest => do
    if (ascii name).length = size then do
      if ← memcmpEq k.buffer (ascii name) size 0 then return some c else findCommand k size rest
    else findCommand k size rest

/-- `cmd_userspawn`, up to the call of `user_spawn` -/
def cmdUserspawn (k : Kshell) : Except Undefined Action := do
  if k.length ≤ 9 then return .usage
  else if (← k.buffer.get 9) ≠ 0x20#8 then return .usage
  else do
    let path := fun i => k.buffer.get (9 + 1 + i)
    return .spawn (← readBytes path (← strlen path))

/-- `kshell_exec` -/
def kshellExec (k : Kshell) : Except Undefined Action := do
  if (← strlen k.buffer.get) = 0 then return .nothing
  else do
    match ← findCommand k (← commandLength k 129 0) commands with
    | none => return .unknown
    | some .userspawn => cmdUserspawn k
    | some c => return .call c

/-- `kshell_poll`: the keys in `during` come while the command runs, and it leaves `screen`. -/
def kshellPoll (sc : Scratch) (k : Kshell) (during : List Byte) (screen : Terminal) :
    Except Undefined (Option Action × Kshell) := do
  if k.commandReady = false then return (none, k)
  else do
    let a ← kshellExec k
    let k ← during.foldlM (kshellOnChar sc) k
    let k ← kshellInit sc { k with terminal := screen }
    return (some a, k)

/-! ## 2. What a line means -/

/-- The action for a line. -/
def dispatch (line : List Byte) : Action :=
  if line = [] then .nothing
  else
    match commands.find? fun c => ascii c.1 = line.takeWhile (· ≠ 0x20#8) with
    | none => .unknown
    | some (_, .userspawn) => if line.length ≤ 9 then .usage else .spawn (line.drop 10)
    | some (_, c) => .call c

/-- The line, and whether its end has been typed. -/
structure Prompt where
  line : List Byte
  ready : Bool
  deriving DecidableEq, Repr

inductive ShellEvent where
  | key (c : Byte)
  | poll (during : List Byte) (screen : Terminal)

/-- What a key does to a line of at most `limit` characters: a backspace erases one, any other is
    added. -/
def editLine (limit : Nat) (line : List Byte) (c : Byte) : List Byte :=
  if c = 0x08#8 then line.dropLast else if line.length < limit then line ++ [c] else line

/-- **The line editor.** -/
def Prompt.step (p : Prompt) : ShellEvent → Option Action × Prompt
  | .key c =>
    (none, if c = 0x0a#8 then { p with ready := true }
      else { p with line := editLine 127 p.line c })
  | .poll _ _ => if p.ready then (some (dispatch p.line), ⟨[], false⟩) else (none, p)

/-- The kernel shell takes an event. -/
def kshellStep (sc : Scratch) (k : Kshell) : ShellEvent → Except Undefined (Option Action × Kshell)
  | .key c => do return (none, ← kshellOnChar sc k c)
  | .poll during screen => kshellPoll sc k during screen

/-! ## 3. The buffer holds the line -/

/-- **The shell refines the line editor**: the buffer holds the line, the flag its end, and the
    terminal can be written to. -/
structure Kshell.Refines (k : Kshell) (p : Prompt) : Prop where
  active : k.active = true
  length : k.length = p.line.length
  short : p.line.length ≤ 127
  buffer : StringAt k.buffer.get p.line
  ready : k.commandReady = p.ready
  terminal : ∃ g, Window k.terminal g

section

variable {k : Kshell} {p : Prompt} {l : List Byte} {b : Buffer Byte 128}

theorem memcmpEq_ok (h : StringAt b.get l) {name : List Byte} {n i : Nat}
    (hn : i + n ≤ name.length) (hl : i + n ≤ l.length) :
    memcmpEq b name n i = .ok (decide ((name.drop i).take n = (l.drop i).take n)) := by
  induction n generalizing i with
  | zero => simp [memcmpEq]; rfl
  | succ n ih =>
    have hc := List.getElem?_eq_getElem (show i < l.length by omega)
    have hd := List.getElem?_eq_getElem (show i < name.length by omega)
    unfold memcmpEq
    rw [h.get_byte hc, ok_bind, hd, List.drop_eq_getElem_cons (show i < l.length by omega),
      List.drop_eq_getElem_cons (show i < name.length by omega), List.take_succ_cons,
      List.take_succ_cons]
    dsimp only
    rw [ok_bind]
    by_cases he : l[i] = name[i]
    · rw [if_neg (by simpa using he), ih (by omega) (by omega), he]
      simp
    · rw [if_pos he]
      have hne : ¬ (name[i] = l[i]) := fun e => he e.symm
      simp [hne]
      rfl

theorem commandLength_ok (h : StringAt k.buffer.get l) (hlen : k.length = l.length)
    {fuel n : Nat} (hn : n ≤ l.length) (hfuel : l.length < fuel + n) :
    commandLength k fuel n = .ok (n + ((l.drop n).takeWhile (· ≠ 0x20#8)).length) := by
  induction fuel generalizing n with
  | zero => omega
  | succ fuel ih =>
    unfold commandLength
    rcases Nat.lt_or_eq_of_le hn with hlt | rfl
    · have hc := List.getElem?_eq_getElem hlt
      rw [if_pos (by omega), h.get_byte hc, ok_bind, List.drop_eq_getElem_cons hlt,
        List.takeWhile_cons]
      by_cases hs : l[n] = 0x20#8
      · rw [if_neg (by simpa using hs)]
        simp [hs]
        rfl
      · rw [if_pos hs, ih hlt (by omega)]
        simp [hs]
        omega
    · rw [if_neg (by omega), List.drop_length]
      simp
      rfl

/-- The first word is the beginning of the line. -/
theorem take_word (l : List Byte) :
    l.take (l.takeWhile (· ≠ 0x20#8)).length = l.takeWhile (· ≠ 0x20#8) :=
  (List.prefix_iff_eq_take.mp (List.takeWhile_prefix _)).symm

theorem findCommand_ok (h : StringAt k.buffer.get l) (cs : List (String × Command)) :
    findCommand k (l.takeWhile (· ≠ 0x20#8)).length cs =
      .ok ((cs.find? fun c => ascii c.1 = l.takeWhile (· ≠ 0x20#8)).map Prod.snd) := by
  induction cs with
  | nil => rfl
  | cons c cs ih =>
    obtain ⟨name, c⟩ := c
    have hle : (l.takeWhile (· ≠ 0x20#8)).length ≤ l.length := (List.takeWhile_prefix _).length_le
    unfold findCommand
    rw [List.find?_cons]
    by_cases hsize : (ascii name).length = (l.takeWhile (· ≠ 0x20#8)).length
    · rw [if_pos hsize, memcmpEq_ok h (by omega) (by omega), List.drop_zero, List.drop_zero, take_word,
        List.take_of_length_le (Nat.le_of_eq hsize), ok_bind]
      by_cases he : ascii name = l.takeWhile (· ≠ 0x20#8)
      · simp [he]
        rfl
      · simp only [he, decide_false, Bool.false_eq_true, if_false]
        exact ih
    · have he : ascii name ≠ l.takeWhile (· ≠ 0x20#8) := fun e => hsize (congrArg List.length e)
      rw [if_neg hsize]
      simp only [he, decide_false]
      exact ih

/-- The argument of `userspawn` is what follows the blank. -/
theorem cmdUserspawn_ok (h : StringAt k.buffer.get l) (hlen : k.length = l.length)
    (hshort : l.length ≤ 127) (hword : l.takeWhile (· ≠ 0x20#8) = ascii "userspawn") :
    cmdUserspawn k = .ok (if l.length ≤ 9 then .usage else .spawn (l.drop 10)) := by
  unfold cmdUserspawn
  rw [hlen]
  by_cases h9 : l.length ≤ 9
  · rw [if_pos h9, if_pos h9]
    rfl
  · -- the word ends because of a blank
    have hsplit : l = ascii "userspawn" ++ l.dropWhile (· ≠ 0x20#8) := by
      rw [← hword, List.takeWhile_append_dropWhile]
    have hblank : l[9]? = some 0x20#8 := by
      cases hd : l.dropWhile (· ≠ 0x20#8) with
      | nil =>
        rw [hd, List.append_nil] at hsplit
        rw [hsplit] at h9
        exact absurd h9 (by decide)
      | cons d rest =>
        have hnot := List.head_dropWhile_not (fun c : Byte => decide (c ≠ 0x20#8)) (l := l)
          (by rw [hd]; simp)
        simp only [hd, List.head_cons] at hnot
        rw [hsplit, hd, List.getElem?_append_right (by decide)]
        simpa [show (ascii "userspawn").length = 9 by decide] using hnot
    obtain ⟨e₁, e₂⟩ := readString_ok (h.drop (show 10 ≤ l.length by omega)) (by
      rw [List.length_drop]
      omega)
    rw [if_neg h9, if_neg h9, h.get_byte hblank, ok_bind, if_neg (by simp)]
    dsimp only
    rw [e₁, ok_bind, e₂]
    rfl

/-- **`kshell_exec` runs what the line says.** -/
theorem Kshell.Refines.exec (h : k.Refines p) : kshellExec k = .ok (dispatch p.line) := by
  have hshort := h.short
  unfold kshellExec dispatch
  rw [(readString_ok h.buffer (by omega)).1, ok_bind]
  by_cases hnil : p.line = []
  · rw [if_pos (by rw [hnil]; rfl), if_pos hnil]
    rfl
  · rw [if_neg (fun e => hnil (List.eq_nil_of_length_eq_zero e)), if_neg hnil,
      commandLength_ok h.buffer h.length (Nat.zero_le _) (by omega), ok_bind, Nat.zero_add,
      List.drop_zero, findCommand_ok h.buffer, ok_bind]
    cases hf : commands.find? fun c => ascii c.1 = p.line.takeWhile (· ≠ 0x20#8) with
    | none => rfl
    | some found =>
      obtain ⟨name, c⟩ := found
      have hname : ascii name = p.line.takeWhile (· ≠ 0x20#8) := by
        simpa using List.find?_some hf
      have hmem := List.mem_of_find?_eq_some hf
      by_cases hc : c = .userspawn
      · subst hc
        have hu : name = "userspawn" := by
          simpa [commands] using hmem
        rw [hu] at hname
        exact cmdUserspawn_ok h.buffer h.length h.short hname.symm
      · cases c <;> first | rfl | exact absurd rfl hc

/-! ## 4. Keys and polls -/

/-- `kshell_init` starts a new line. -/
theorem kshellInit_refines (sc : Scratch) (k : Kshell) {t : Terminal} {g : Grid} (ht : Window t g) :
    ∃ k', kshellInit sc { k with terminal := t } = .ok k' ∧ k'.Refines ⟨[], false⟩ := by
  have hx : expand promptString.bytes [] = ⟨promptString.bytes, true⟩ := rfl
  obtain ⟨t', e, hw⟩ := Kshell.print_ok sc (k := { k with
    buffer := ⟨fun _ => 0⟩, length := 0, commandReady := false, terminal := t }) ht hx (by decide)
  refine ⟨_, bind_ok.mpr ⟨_, e, rfl⟩, rfl, rfl, by decide, ?_, rfl, _, hw⟩
  exact ⟨reads_nil, Buffer.get_ok (by decide), by simp⟩

/-- **One key.** -/
theorem Kshell.Refines.key (sc : Scratch) (h : k.Refines p) {c : Byte} (hc : c ≠ 0) :
    ∃ k', kshellOnChar sc k c = .ok k' ∧ k'.Refines (p.step (.key c)).2 := by
  have hlen := h.length
  have hshort := h.short
  obtain ⟨g, hw⟩ := h.terminal
  unfold kshellOnChar Prompt.step editLine
  dsimp only
  rw [if_neg (by rw [h.active]; decide)]
  by_cases hn : c = 0x0a#8
  · rw [if_pos hn, if_pos hn]
    obtain ⟨t', e, hw'⟩ := Kshell.echo_ok sc hw c
    exact ⟨_, bind_ok.mpr ⟨_, e, rfl⟩, h.active, h.length, h.short, h.buffer, rfl, _, hw'⟩
  · rw [if_neg hn, if_neg hn]
    by_cases hb : c = 0x08#8
    · rw [if_pos hb, if_pos hb]
      rcases List.eq_nil_or_concat p.line with hnil | ⟨l, d, hl⟩
      · rw [hnil] at hlen
        rw [if_neg (by rw [hlen]; decide)]
        refine ⟨k, rfl, h.active, ?_, ?_, ?_, h.ready, h.terminal⟩
        · simp [hnil, hlen]
        · simp [hnil]
        · simpa [hnil] using h.buffer
      · rw [List.concat_eq_append] at hl
        have hbuf := h.buffer
        rw [hl, List.length_append, List.length_singleton] at hlen hshort
        rw [hl] at hbuf
        have hl' : k.length - 1 = l.length := by omega
        rw [if_pos (by omega), hl, List.dropLast_concat]
        rw [hl', Buffer.set_ok (by omega), ok_bind]
        obtain ⟨t', e, hw'⟩ := Kshell.echo_ok sc
          (k := { k with buffer := k.buffer.upd l.length 0, length := l.length }) hw c
        exact ⟨_, e, h.active, rfl, by dsimp only; omega, hbuf.erase (by omega), h.ready, _, hw'⟩
    · rw [if_neg hb, if_neg hb]
      by_cases hfull : p.line.length < 127
      · rw [if_pos (by omega), if_pos hfull, hlen, Buffer.set_ok (by omega), ok_bind,
          Buffer.set_ok (by omega), ok_bind]
        obtain ⟨t', e, hw'⟩ := Kshell.echo_ok sc
          (k := { k with buffer := (k.buffer.upd p.line.length c).upd (p.line.length + 1) 0,
                         length := p.line.length + 1 }) hw c
        exact ⟨_, e, h.active, by simp, by simp; omega, h.buffer.snoc hc (by omega), h.ready, _, hw'⟩
      · rw [if_neg (by omega), if_neg hfull]
        exact ⟨k, rfl, h⟩

/-- The keys that come while a command runs do no harm. -/
theorem Kshell.Refines.keys (sc : Scratch) (h : k.Refines p) {keys : List Byte}
    (hkeys : ∀ c ∈ keys, c ≠ 0) :
    ∃ k' p', keys.foldlM (kshellOnChar sc) k = .ok k' ∧ k'.Refines p' := by
  induction keys generalizing k p with
  | nil => exact ⟨k, p, rfl, h⟩
  | cons c keys ih =>
    obtain ⟨k₁, e₁, h₁⟩ := h.key sc (hkeys c List.mem_cons_self)
    obtain ⟨k₂, p₂, e₂, h₂⟩ := ih h₁ fun d hd => hkeys d (List.mem_cons_of_mem _ hd)
    exact ⟨k₂, p₂, bind_ok.mpr ⟨k₁, e₁, e₂⟩, h₂⟩

/-- Keys are not null characters, and a command leaves a terminal that can be written to. -/
def ShellEvent.Fair : ShellEvent → Prop
  | .key c => c ≠ 0
  | .poll during screen => (∀ c ∈ during, c ≠ 0) ∧ screen.Reached

/-- **One event.** -/
theorem Kshell.Refines.step (sc : Scratch) (h : k.Refines p) {e : ShellEvent} (he : e.Fair) :
    ∃ k', kshellStep sc k e = .ok ((p.step e).1, k') ∧ k'.Refines (p.step e).2 := by
  cases e with
  | key c =>
    obtain ⟨k', ek, hk⟩ := h.key sc he
    exact ⟨k', bind_ok.mpr ⟨k', ek, rfl⟩, hk⟩
  | poll during screen =>
    unfold kshellStep kshellPoll Prompt.step
    dsimp only
    rw [h.ready]
    cases hr : p.ready with
    | false => exact ⟨k, rfl, h⟩
    | true =>
      obtain ⟨hkeys, hscreen⟩ := he
      obtain ⟨k₁, p₁, e₁, -⟩ := h.keys sc hkeys
      obtain ⟨g, hw⟩ := hscreen.window
      obtain ⟨k₂, e₂, h₂⟩ := kshellInit_refines sc k₁ hw
      refine ⟨k₂, ?_, h₂⟩
      rw [if_neg (by decide), h.exec, ok_bind, e₁, ok_bind, e₂]
      rfl

/-- The commands that a run of the shell runs, and the shell after it. -/
def kshellRun (sc : Scratch) (k : Kshell) : List ShellEvent → Except Undefined (List Action × Kshell)
  | [] => return ([], k)
  | e :: es => do
    let (a, k) ← kshellStep sc k e
    let (as, k) ← kshellRun sc k es
    return (a.toList ++ as, k)

/-- The same for the line editor. -/
def Prompt.run (p : Prompt) : List ShellEvent → List Action × Prompt
  | [] => ([], p)
  | e :: es => ((p.step e).1.toList ++ ((p.step e).2.run es).1, ((p.step e).2.run es).2)

theorem Kshell.Refines.run (sc : Scratch) (h : k.Refines p) {es : List ShellEvent}
    (hes : ∀ e ∈ es, e.Fair) :
    ∃ k', kshellRun sc k es = .ok ((p.run es).1, k') ∧ k'.Refines (p.run es).2 := by
  induction es generalizing k p with
  | nil => exact ⟨k, rfl, h⟩
  | cons e es ih =>
    obtain ⟨k₁, e₁, h₁⟩ := h.step sc (hes e List.mem_cons_self)
    obtain ⟨k₂, e₂, h₂⟩ := ih h₁ fun d hd => hes d (List.mem_cons_of_mem _ hd)
    refine ⟨k₂, ?_, h₂⟩
    unfold kshellRun
    rw [e₁, ok_bind]
    dsimp only
    rw [e₂, ok_bind]
    rfl

end

end Emyx

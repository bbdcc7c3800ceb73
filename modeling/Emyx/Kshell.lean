/-
  File:      Emyx/Kshell.lean
  Subject:   THE LINE EDITOR OF THE KERNEL SHELL (kshell.c): a line buffer and its echo on the
             terminal.

  * `kshellInit`, `kshellOnChar` -- the functions, with `printk` and the terminal behind it;
  * `Grid.Spells` -- a text stands right before the cursor, over row ends and within the window;
    `Grid.Spells.print`, `Grid.Spells.backspace` -- typing and erasing keep it;
  * `InStep` -- the buffer holds the line, and the screen shows the prompt and the line;
  * **`kshell_inStep`** -- so it is after any characters and backspaces, from any terminal.
-/
import Emyx.PrintkFormat
import Emyx.Terminal

namespace Emyx

open Lib

/-! ## 1. The functions -/

/-- The state of kshell.c, and the terminal it prints to. -/
structure Kshell where
  buffer : Buffer Byte 128
  length : Nat
  commandReady : Bool
  active : Bool
  terminal : Terminal

/-- A call of `printk` for its output. -/
def Kshell.print (sc : Scratch) (k : Kshell) (format : CString) (args : List Arg) :
    Except Undefined Kshell := do
  let (_, bytes) ← printk sc format args
  let terminal ← terminalWrite k.terminal bytes
  return { k with terminal := terminal }

/-- `"kshell> "` -/
def promptString : CString := ⟨ascii "kshell> ", by decide, by decide⟩

/-- `"%c"` -/
def charFormat : CString := ⟨ascii "%c", by decide, by decide⟩

/-- `printk("%c", c)`, the `char` as an `int` -/
def Kshell.echo (sc : Scratch) (k : Kshell) (c : Byte) : Except Undefined Kshell :=
  k.print sc charFormat [.int (c.signExtend 32)]

/-- `kshell_init` -/
def kshellInit (sc : Scratch) (k : Kshell) : Except Undefined Kshell := do
  let k := { k with buffer := ⟨fun _ => 0⟩, length := 0, commandReady := false }
  let k ← k.print sc promptString []
  return { k with active := true }

/-- `kshell_on_char` -/
def kshellOnChar (sc : Scratch) (k : Kshell) (c : Byte) : Except Undefined Kshell :=
  if k.active = false then return k
  else if c = 0x0a#8 then do
    let k ← k.echo sc c
    return { k with commandReady := true }
  else if c = 0x08#8 then
    if k.length > 0 then do
      let length := k.length - 1
      let buffer ← k.buffer.set length 0
      Kshell.echo sc { k with buffer := buffer, length := length } c
    else return k
  else if k.length < 128 - 1 then do
    let buffer ← k.buffer.set k.length c
    let length := k.length + 1
    let buffer ← buffer.set length 0
    Kshell.echo sc { k with buffer := buffer, length := length } c
  else return k

/-! ## 2. A text before the cursor -/

/-- The number of the cell at the cursor, counted along the rows. -/
def Grid.pos (g : Grid) : Nat := g.row * 80 + g.column

/-- The byte in the cell number `p`. -/
def Grid.byteAt (g : Grid) (p : Nat) : Byte := g.cell (p / 80) (p % 80)

/-- The cursor is in the window. -/
structure Grid.Inside (g : Grid) : Prop where
  columns : g.column < 80
  top : g.top ≤ g.row
  rows : g.row < g.top + 25

/-- **The cells right before the cursor spell `text`**, all of them in the window. -/
structure Grid.Spells (g : Grid) (text : List Byte) : Prop where
  visible : g.top * 80 + text.length ≤ g.pos
  bytes : ∀ i c, text[i]? = some c → g.byteAt (g.pos - text.length + i) = c

section

variable {g : Grid} {text : List Byte} {c : Byte}

theorem Window.inside {t : Terminal} (h : Window t g) : g.Inside := by
  have hrow := h.row
  have hcol := h.column
  have hrows := h.rows
  have hcols := h.columns
  constructor <;> omega

theorem Grid.byteAt_write {r n p : Nat} (hn : n < 80) :
    (g.write r n c).byteAt p = if p = r * 80 + n then c else g.byteAt p := by
  unfold byteAt write
  dsimp only
  by_cases hp : p = r * 80 + n
  · rw [if_pos hp, if_pos (by omega)]
  · rw [if_neg hp, if_neg (by omega)]

/-- What printing a byte does, along the rows: the window moves only with the cursor at the start
    of its last row. -/
theorem Grid.print_pos (h : g.Inside) (c : Byte) :
    (g.print c).pos = g.pos + 1 ∧
    (∀ p, (g.print c).byteAt p = if p = g.pos then c else g.byteAt p) ∧
    ((g.print c).top = g.top ∨ (g.print c).pos = ((g.print c).top + 24) * 80) := by
  have hcols := h.columns
  have hrows := h.rows
  unfold print
  by_cases hend : g.column = 79
  · rw [if_pos hend]
    refine ⟨?_, fun p => byteAt_write hcols, ?_⟩
    · show (g.row + 1) * 80 + 0 = g.row * 80 + g.column + 1
      omega
    · show (if g.row + 1 < g.top + 25 then g.top else g.top + 1) = g.top ∨
        (g.row + 1) * 80 + 0 = ((if g.row + 1 < g.top + 25 then g.top else g.top + 1) + 24) * 80
      split <;> omega
  · rw [if_neg hend]
    exact ⟨(Nat.add_assoc ..).symm, fun p => byteAt_write hcols, .inl rfl⟩

/-- **Typing a character** puts it behind the text. -/
theorem Grid.Spells.print (h : g.Spells text) (hin : g.Inside) (hlen : text.length + 1 ≤ 1920)
    (c : Byte) : (g.print c).Spells (text ++ [c]) := by
  obtain ⟨hpos, hat, htop⟩ := Grid.print_pos hin c
  have hvis := h.visible
  have hlen' : (text ++ [c]).length = text.length + 1 := by simp
  refine ⟨by omega, fun i d hi => ?_⟩
  rw [hpos, hlen', hat]
  rcases Nat.lt_or_ge i text.length with hlt | hge
  · rw [List.getElem?_append_left hlt] at hi
    rw [if_neg (by omega), show g.pos + 1 - (text.length + 1) + i = g.pos - text.length + i by omega]
    exact h.bytes i d hi
  · rw [List.getElem?_append_right hge] at hi
    obtain ⟨hi0, he⟩ := List.getElem?_eq_some_iff.mp hi
    rw [List.length_singleton] at hi0
    rw [if_pos (by omega), ← he]
    simp

/-- What a backspace does, along the rows. -/
theorem Grid.backspace_pos (h : g.Inside) (hpos : g.top * 80 < g.pos) :
    g.backspace.pos = g.pos - 1 ∧ g.backspace.top = g.top ∧
      ∀ p, p ≠ g.pos - 1 → g.backspace.byteAt p = g.byteAt p := by
  have hcols := h.columns
  unfold backspace
  unfold pos at hpos ⊢
  by_cases hc : g.column = 0
  · rw [if_pos hc, if_neg (by omega)]
    refine ⟨?_, rfl, fun p hp => (byteAt_write (by decide)).trans (if_neg (by omega))⟩
    show (g.row - 1) * 80 + 79 = _
    omega
  · rw [if_neg hc]
    refine ⟨?_, rfl, fun p hp => (byteAt_write (by omega)).trans (if_neg (by omega))⟩
    show g.row * 80 + (g.column - 1) = _
    omega

/-- **A backspace** takes the last character. -/
theorem Grid.Spells.backspace (h : g.Spells (text ++ [c])) (hin : g.Inside) :
    g.backspace.Spells text := by
  have hvis := h.visible
  have hlen : (text ++ [c]).length = text.length + 1 := by simp
  obtain ⟨hpos, htop, hat⟩ := Grid.backspace_pos hin (by omega)
  refine ⟨by omega, fun i d hi => ?_⟩
  have hlt : i < text.length := (List.getElem?_eq_some_iff.mp hi).1
  rw [hpos, hat _ (by omega),
    show g.pos - 1 - text.length + i = g.pos - (text ++ [c]).length + i by omega]
  exact h.bytes i d (by rwa [List.getElem?_append_left hlt])

end

/-! ## 3. The line and its echo -/

/-- A printable character or a backspace. -/
def IsTyped (c : Byte) : Prop := c = 0x08#8 ∨ 0x20 ≤ c.toNat ∧ c.toNat ≤ 0x7e

instance (c : Byte) : Decidable (IsTyped c) :=
  inferInstanceAs (Decidable (c = 0x08#8 ∨ 0x20 ≤ c.toNat ∧ c.toNat ≤ 0x7e))

/-- What a key does to a line of at most 127 characters. -/
def typeKey (line : List Byte) (c : Byte) : List Byte :=
  if c = 0x08#8 then line.dropLast else if line.length < 127 then line ++ [c] else line

/-- The line after the keys. -/
def typedLine (keys : List Byte) : List Byte := keys.foldl typeKey []

/-- **The buffer holds the line, and the terminal shows it** behind the prompt. -/
structure InStep (k : Kshell) (g : Grid) (line : List Byte) : Prop where
  active : k.active = true
  length : k.length = line.length
  short : line.length ≤ 127
  buffer : StringAt k.buffer.get line
  window : Window k.terminal g
  spells : g.Spells (promptString.bytes ++ line)

section

variable {k : Kshell} {g : Grid} {line : List Byte} {c : Byte}

/-- A `printk` whose expansion is the text. -/
theorem Kshell.print_ok (sc : Scratch) (h : Window k.terminal g) {format : CString} {args : List Arg}
    {text : List Byte} (hx : expand format.bytes args = ⟨text, true⟩)
    (hlen : text.length ≤ 0x7fffffff) :
    ∃ t', k.print sc format args = .ok { k with terminal := t' } ∧
      Window t' (text.foldl Grid.put g) := by
  obtain ⟨t', e, h'⟩ := h.write text
  have hp := (printk_prints sc format args).all
  rw [hx, List.nil_append, Nat.zero_add] at hp
  exact ⟨t', bind_ok.mpr ⟨_, hp rfl hlen, bind_ok.mpr ⟨t', e, rfl⟩⟩, h'⟩

theorem expand_charFormat (c : Byte) :
    expand charFormat.bytes [.int (c.signExtend 32)] = ⟨[c], true⟩ := by
  have hc : (c.signExtend 32).setWidth 8 = c := by
    ext i hi
    rw [BitVec.getElem_setWidth, BitVec.getLsbD_signExtend]
    simp [hi, show i < 32 by omega]
  have h : expand charFormat.bytes [.int (c.signExtend 32)] =
      ⟨[(c.signExtend 32).setWidth 8], true⟩ := rfl
  rw [h, hc]

/-- The echo of a character. -/
theorem Kshell.echo_ok (sc : Scratch) (h : Window k.terminal g) (c : Byte) :
    ∃ t', k.echo sc c = .ok { k with terminal := t' } ∧ Window t' (g.put c) :=
  Kshell.print_ok sc h (expand_charFormat c) (Nat.le_of_ble_eq_true rfl)

/-- A printable character is put by printing it. -/
theorem IsTyped.put (hc : IsTyped c) (hb : c ≠ 0x08#8) :
    c ≠ 0x0a#8 ∧ c ≠ 0 ∧ g.put c = g.print c := by
  rcases hc with hc | ⟨hlo, hhi⟩
  · exact absurd hc hb
  have hn : c ≠ 0x0a#8 := by
    intro h
    rw [h] at hlo
    exact absurd hlo (by decide)
  have h0 : c ≠ 0 := by
    intro h
    rw [h] at hlo
    exact absurd hlo (by decide)
  refine ⟨hn, h0, ?_⟩
  unfold Grid.put
  rw [if_neg hb, if_neg hn]

/-- **One key.** -/
theorem InStep.key (sc : Scratch) (h : InStep k g line) (hc : IsTyped c) :
    ∃ k' g', kshellOnChar sc k c = .ok k' ∧ InStep k' g' (typeKey line c) := by
  have hlen := h.length
  have hshort := h.short
  unfold kshellOnChar typeKey
  rw [if_neg (by rw [h.active]; decide)]
  by_cases hb : c = 0x08#8
  · rw [if_neg (by rw [hb]; decide), if_pos hb, if_pos hb]
    rcases List.eq_nil_or_concat line with hnil | ⟨l, d, hl⟩
    -- there is nothing to erase, and the prompt stays
    · subst hnil
      rw [if_neg (by rw [hlen]; decide)]
      exact ⟨k, g, rfl, h⟩
    · rw [List.concat_eq_append] at hl
      subst hl
      rw [List.length_append, List.length_singleton] at hlen hshort
      have hl : k.length - 1 = l.length := by omega
      rw [if_pos (by omega), List.dropLast_concat]
      dsimp only
      rw [hl, Buffer.set_ok (by omega), ok_bind]
      obtain ⟨t', e, hw⟩ := Kshell.echo_ok sc
        (k := { k with buffer := k.buffer.upd l.length 0, length := l.length }) h.window c
      refine ⟨_, _, e, h.active, rfl, by omega, h.buffer.erase (by omega), hw, ?_⟩
      have hput : g.put c = g.backspace := by
        unfold Grid.put
        rw [if_pos hb]
      rw [hput]
      have hs := h.spells
      rw [← List.append_assoc] at hs
      exact hs.backspace h.window.inside
  · obtain ⟨hn, h0, hput⟩ := hc.put (g := g) hb
    rw [if_neg hn, if_neg hb, if_neg hb]
    by_cases hfull : line.length < 127
    · rw [if_pos (by omega), if_pos hfull, hlen, Buffer.set_ok (by omega), ok_bind]
      dsimp only
      rw [Buffer.set_ok (by omega), ok_bind]
      obtain ⟨t', e, hw⟩ := Kshell.echo_ok sc
        (k := { k with buffer := (k.buffer.upd line.length c).upd (line.length + 1) 0,
                       length := line.length + 1 }) h.window c
      refine ⟨_, _, e, h.active, by simp, by simp; omega, h.buffer.snoc h0 (by omega), hw, ?_⟩
      rw [hput, ← List.append_assoc]
      refine h.spells.print h.window.inside ?_ c
      rw [List.length_append]
      have hp : promptString.bytes.length = 8 := rfl
      omega
    · rw [if_neg (by omega), if_neg hfull]
      exact ⟨k, g, rfl, h⟩

/-- **The keys of a run.** -/
theorem InStep.run (sc : Scratch) (h : InStep k g line) {keys : List Byte}
    (hkeys : ∀ c ∈ keys, IsTyped c) :
    ∃ k' g', keys.foldlM (kshellOnChar sc) k = .ok k' ∧ InStep k' g' (keys.foldl typeKey line) := by
  induction keys generalizing k g line with
  | nil => exact ⟨k, g, rfl, h⟩
  | cons c keys ih =>
    obtain ⟨k₁, g₁, e₁, h₁⟩ := h.key sc (hkeys c (List.mem_cons_self ..))
    obtain ⟨k', g', e, h'⟩ := ih h₁ fun d hd => hkeys d (List.mem_cons_of_mem _ hd)
    exact ⟨k', g', bind_ok.mpr ⟨k₁, e₁, e⟩, h'⟩

/-- A text without control characters, written behind another one. -/
theorem Window.spells_write {t : Terminal} {before text : List Byte} (h : Window t g)
    (hs : g.Spells before) (htext : ∀ c ∈ text, c ≠ 0x08#8 ∧ c ≠ 0x0a#8)
    (hlen : before.length + text.length ≤ 1920) :
    (text.foldl Grid.put g).Spells (before ++ text) := by
  induction text generalizing t g before with
  | nil => rwa [List.append_nil]
  | cons c text ih =>
    obtain ⟨hb, hn⟩ := htext c (List.mem_cons_self ..)
    rw [List.length_cons] at hlen
    have hput : g.put c = g.print c := by
      unfold Grid.put
      rw [if_neg hb, if_neg hn]
    obtain ⟨t', -, h'⟩ := h.put c
    have hs' := hs.print h.inside (by omega) c
    rw [← hput] at hs'
    have := ih h' hs' (fun d hd => htext d (List.mem_cons_of_mem _ hd)) (by simp; omega)
    rwa [List.append_assoc] at this

/-- **`kshell_init`** empties the line and prints the prompt, wherever the cursor is. -/
theorem kshellInit_inStep (sc : Scratch) (h : Window k.terminal g) :
    ∃ k' g', kshellInit sc k = .ok k' ∧ InStep k' g' [] := by
  have hx : expand promptString.bytes [] = ⟨promptString.bytes, true⟩ := rfl
  obtain ⟨t', e, hw⟩ := Kshell.print_ok sc
    (k := { k with buffer := ⟨fun _ => 0⟩, length := 0, commandReady := false }) h hx (by decide)
  refine ⟨_, _, bind_ok.mpr ⟨_, e, rfl⟩, rfl, rfl, Nat.zero_le _, ⟨reads_nil, rfl, by simp⟩, hw, ?_⟩
  have hin := h.inside
  have hs : g.Spells [] := by
    have htop := hin.top
    refine ⟨?_, by simp⟩
    unfold Grid.pos
    rw [List.length_nil]
    omega
  have hp : (promptString.bytes.foldl Grid.put g).Spells ([] ++ promptString.bytes) :=
    h.spells_write hs (by decide) (by decide)
  rwa [List.nil_append] at hp

end

/-! ## 4. On the screen -/

/-- A state the terminal gets to after `terminal_init`, by writing. -/
def Terminal.Reached (t : Terminal) : Prop :=
  ∃ t₀ t₁ data, terminalInit t₀ = .ok t₁ ∧ terminalWrite t₁ data = .ok t

/-- The cells of the screen right before the cursor, in row-major order, show `text`. -/
structure Terminal.ShowsBefore (t : Terminal) (text : List Byte) : Prop where
  room : text.length ≤ t.row * 80 + t.column
  cells : ∀ i c, text[i]? = some c →
    t.buffer.get (t.row * 80 + t.column - text.length + i) = .ok (vgaEntry c normalColor)

theorem Terminal.Reached.window {t : Terminal} (h : t.Reached) : ∃ g, Window t g := by
  obtain ⟨t₀, t₁, data, e₁, e⟩ := h
  obtain ⟨t₁', e₁', hw⟩ := window_init t₀
  cases e₁'.symm.trans e₁
  obtain ⟨t', e', hw'⟩ := hw.write data
  cases e'.symm.trans e
  exact ⟨_, hw'⟩

/-- What the grid spells in its window is on the screen. -/
theorem Window.showsBefore {t : Terminal} {g : Grid} {text : List Byte} (h : Window t g)
    (hs : g.Spells text) : t.ShowsBefore text := by
  have hvis := hs.visible
  have hrow := h.row
  have hcol := h.column
  have hrows := h.rows
  have hcols := h.columns
  unfold Grid.pos at hvis
  refine ⟨by omega, fun i c hi => ?_⟩
  have hlt := (List.getElem?_eq_some_iff.mp hi).1
  have hc := hs.bytes i c hi
  -- the cell of the screen lies `top` rows below the one of the grid
  generalize hq : t.row * 80 + t.column - text.length + i = q
  have hshown := h.shown (q / 80) (q % 80) (by omega) (by omega)
  have hg : g.pos - text.length + i = (g.top + q / 80) * 80 + q % 80 := by
    unfold Grid.pos
    omega
  rw [hg] at hc
  unfold Grid.byteAt at hc
  rw [show ((g.top + q / 80) * 80 + q % 80) / 80 = g.top + q / 80 by omega,
    show ((g.top + q / 80) * 80 + q % 80) % 80 = q % 80 by omega] at hc
  rw [show q = q / 80 * 80 + q % 80 by omega, hshown, hc]

/-- **THE LINE BUFFER AND ITS ECHO STAY IN STEP.** From any terminal, after `kshell_init` and any
    printable characters and backspaces, the buffer holds the typed line and its terminator, and the
    screen shows the prompt and that line right before the cursor. -/
theorem kshell_inStep (sc : Scratch) (k : Kshell) (ht : k.terminal.Reached) (keys : List Byte)
    (hkeys : ∀ c ∈ keys, IsTyped c) :
    ∃ k₁ k', kshellInit sc k = .ok k₁ ∧ keys.foldlM (kshellOnChar sc) k₁ = .ok k' ∧
      k'.length = (typedLine keys).length ∧ k'.length ≤ 127 ∧
      StringAt k'.buffer.get (typedLine keys) ∧
      k'.terminal.ShowsBefore (promptString.bytes ++ typedLine keys) := by
  obtain ⟨g, hw⟩ := ht.window
  obtain ⟨k₁, g₁, e₁, h₁⟩ := kshellInit_inStep sc hw
  obtain ⟨k', g', e, h⟩ := h₁.run sc hkeys
  refine ⟨k₁, k', e₁, e, h.length, ?_, h.buffer, h.window.showsBefore h.spells⟩
  rw [h.length]
  exact h.short

/-- A corrected typing error, on a fresh terminal. -/
theorem kshell_inStep_erased :
    ∃ k k₁ k', k.terminal.Reached ∧
      kshellInit ⟨⟨fun _ => 0⟩, ⟨fun _ => 0⟩, ⟨fun _ => 0⟩⟩ k = .ok k₁ ∧
      (ascii "ab\x08c").foldlM (kshellOnChar ⟨⟨fun _ => 0⟩, ⟨fun _ => 0⟩, ⟨fun _ => 0⟩⟩) k₁ = .ok k' ∧
      k'.length = 2 ∧ StringAt k'.buffer.get (ascii "ac") ∧
      k'.terminal.ShowsBefore (ascii "kshell> ac") := by
  obtain ⟨t, e, -⟩ := window_init ⟨0, 0, 0, ⟨fun _ => 0⟩, 0⟩
  have ht : t.Reached := ⟨_, t, [], e, rfl⟩
  obtain ⟨k₁, k', e₁, e', hlen, -, hb, hs⟩ :=
    kshell_inStep ⟨⟨fun _ => 0⟩, ⟨fun _ => 0⟩, ⟨fun _ => 0⟩⟩ ⟨⟨fun _ => 0⟩, 0, false, false, t⟩ ht
      (ascii "ab\x08c") (by decide)
  have hl : typedLine (ascii "ab\x08c") = ascii "ac" := by decide
  rw [hl] at hlen hb hs
  exact ⟨_, k₁, k', ht, e₁, e', hlen, hb, hs⟩

end Emyx

/-
  File:      Emyx/Terminal.lean
  Subject:   THE TERMINAL (arch/i386/tty.c): 25 rows of 80 cells, refined from an unbounded grid.

  * `terminalInit`, `terminalPutchar`, `terminalWrite` -- the functions; every write to the screen
    is checked against its 2000 cells;
  * `Grid` -- what the terminal is for: rows without end, a cursor, and a window of 25 rows that
    follows it;
  * `Window` -- the screen is the grid's window; `window_init`, `Window.put` -- the terminal starts
    so, and each byte keeps it so;
  * **`terminal_refines`** -- after any bytes the screen is the window of the grid that got them.
-/
import Emyx.Lib.Buffer

namespace Emyx

open Lib

/-! ## 1. The terminal -/

/-- `vga_entry_color` -/
def vgaEntryColor (fg bg : Byte) : Byte := fg ||| bg <<< 4

/-- `vga_entry` -/
def vgaEntry (uc color : Byte) : BitVec 16 := uc.setWidth 16 ||| color.setWidth 16 <<< 8

/-- The state of tty.c, and the cursor that the video controller shows. -/
structure Terminal where
  row : Nat
  column : Nat
  color : Byte
  buffer : Buffer (BitVec 16) 2000
  cursor : Nat

/-- `terminal_update_cursor` -/
def terminalUpdateCursor (t : Terminal) : Terminal :=
  { t with cursor := (t.row * 80 + t.column) % 2 ^ 16 }

/-- `terminal_putentryat` -/
def terminalPutentryat (t : Terminal) (c color : Byte) (x y : Nat) : Except Undefined Terminal := do
  let buffer ← t.buffer.set (y * 80 + x) (vgaEntry c color)
  return { t with buffer := buffer }

/-- `terminal_init` -/
def terminalInit (t : Terminal) : Except Undefined Terminal := do
  let t := { t with row := 0, column := 0, color := vgaEntryColor 7 0 }
  let t ← (List.range 25).foldlM (fun t y =>
    (List.range 80).foldlM (fun t x => terminalPutentryat t 0x20#8 t.color x y) t) t
  return terminalUpdateCursor t

/-- `terminal_scroll_up` -/
def terminalScrollUp (t : Terminal) : Except Undefined Terminal := do
  let buffer ← (List.range (2000 - 80)).foldlM (fun b i => do b.set i (← b.get (i + 80))) t.buffer
  let buffer ← (List.range 80).foldlM (fun b i =>
    b.set (2000 - 80 + i) (vgaEntry 0x20#8 t.color)) buffer
  return terminalUpdateCursor { t with buffer := buffer, row := 24, column := 0 }

/-- `terminal_backspace` -/
def terminalBackspace (t : Terminal) : Except Undefined Terminal :=
  if t.column = 0 ∧ t.row = 0 then return t
  else do
    let t := if t.column = 0 then { t with column := 79, row := t.row - 1 }
      else { t with column := t.column - 1 }
    let t ← terminalPutentryat t 0x20#8 t.color t.column t.row
    return terminalUpdateCursor t

/-- `terminal_column = 0; if (++terminal_row == VGA_HEIGHT) terminal_scroll_up();` -/
def terminalNextRow (t : Terminal) : Except Undefined Terminal :=
  let t := { t with column := 0, row := t.row + 1 }
  if t.row = 25 then terminalScrollUp t else return t

/-- `terminal_putchar` -/
def terminalPutchar (t : Terminal) (c : Byte) : Except Undefined Terminal :=
  if c = 0x08#8 then terminalBackspace t
  else if c = 0x0a#8 then do
    let t ← terminalNextRow t
    return terminalUpdateCursor t
  else do
    let t ← terminalPutentryat t c t.color t.column t.row
    let t ← (if t.column + 1 = 80 then terminalNextRow t else .ok { t with column := t.column + 1 })
    return terminalUpdateCursor t

/-- `terminal_write` -/
def terminalWrite (t : Terminal) (data : List Byte) : Except Undefined Terminal :=
  data.foldlM terminalPutchar t

/-! ## 2. The grid -/

/-- A text without end, a cursor in it, and the first row of the window. -/
structure Grid where
  cell : Nat → Nat → Byte
  row : Nat
  column : Nat
  top : Nat

/-- Blanks, and the cursor at the top left. -/
def Grid.blank : Grid := ⟨fun _ _ => 0x20#8, 0, 0, 0⟩

/-- The byte `c` in row `r` and column `n`. -/
def Grid.write (g : Grid) (r n : Nat) (c : Byte) : Grid :=
  { g with cell := fun r' n' => if r' = r ∧ n' = n then c else g.cell r' n' }

/-- The cursor goes to the next row, and the window with it if it would leave it. -/
def Grid.nextRow (g : Grid) : Grid :=
  { g with row := g.row + 1, column := 0,
           top := if g.row + 1 < g.top + 25 then g.top else g.top + 1 }

/-- One cell back, but not out of the window at its top left; that cell is blank then. -/
def Grid.backspace (g : Grid) : Grid :=
  if g.column = 0 then
    if g.row = g.top then g
    else { g.write (g.row - 1) 79 0x20#8 with row := g.row - 1, column := 79 }
  else { g.write g.row (g.column - 1) 0x20#8 with column := g.column - 1 }

/-- A byte that is neither newline nor backspace: it is written and the cursor goes on, to the next
    row after column 79. -/
def Grid.print (g : Grid) (c : Byte) : Grid :=
  if g.column = 79 then (g.write g.row g.column c).nextRow
  else { g.write g.row g.column c with column := g.column + 1 }

/-- What a byte does. -/
def Grid.put (g : Grid) (c : Byte) : Grid :=
  if c = 0x08#8 then g.backspace else if c = 0x0a#8 then g.nextRow else g.print c

/-! ## 3. The screen is the window -/

/-- The colour `terminal_init` sets. -/
def normalColor : Byte := vgaEntryColor 7 0

/-- The screen shows the window of the grid, with the cursor in it. -/
structure Screen (t : Terminal) (g : Grid) : Prop where
  row : g.row = g.top + t.row
  column : g.column = t.column
  rows : t.row < 25
  columns : t.column < 80
  color : t.color = normalColor
  shown : ∀ r n, r < 25 → n < 80 →
    t.buffer.get (r * 80 + n) = .ok (vgaEntry (g.cell (g.top + r) n) normalColor)

/-- From the cell number `p` on there are blanks. -/
def Grid.EmptyFrom (g : Grid) (p : Nat) : Prop :=
  ∀ r n, n < 80 → p ≤ r * 80 + n → g.cell r n = 0x20#8

/-- **The screen is the window**, and nothing stands at the cursor or behind it. -/
structure Window (t : Terminal) (g : Grid) : Prop extends Screen t g where
  empty : g.EmptyFrom (g.row * 80 + g.column)

section

variable {t t' : Terminal} {g : Grid} {c : Byte}

theorem terminalPutentryat_ok {x y : Nat} (color : Byte) (hx : x < 80) (hy : y < 25) :
    terminalPutentryat t c color x y =
      .ok { t with buffer := t.buffer.upd (y * 80 + x) (vgaEntry c color) } := by
  unfold terminalPutentryat
  rw [Buffer.set_ok (by omega)]
  rfl

/-- A cell of the screen after another was written. -/
theorem get_upd_cell {b : Buffer (BitVec 16) 2000} {e : BitVec 16} {x y r n : Nat} (hx : x < 80)
    (hy : y < 25) (hn : n < 80) : (b.upd (y * 80 + x) e).get (r * 80 + n) =
      if r = y ∧ n = x then .ok e else b.get (r * 80 + n) := by
  by_cases h : r = y ∧ n = x
  · rw [if_pos h, h.1, h.2]
    exact Buffer.get_upd_self (by omega)
  · rw [if_neg h]
    exact Buffer.get_upd_of_ne (by omega)

/-- The screen after `terminal_scroll_up`. -/
def scrolled (t : Terminal) : Buffer (BitVec 16) 2000 :=
  (t.buffer.shifted 80 1920).filled (fun _ => vgaEntry 0x20#8 t.color) 1920 80

theorem terminalScrollUp_ok (t : Terminal) : terminalScrollUp t =
    .ok (terminalUpdateCursor { t with buffer := scrolled t, row := 24, column := 0 }) := by
  unfold terminalScrollUp
  rw [Buffer.shift_ok _ 80 (2000 - 80) (by decide) (by decide), ok_bind,
    Buffer.fill_ok _ (fun _ => vgaEntry 0x20#8 t.color) (2000 - 80) 80 (by decide)]
  rfl

theorem get_scrolled {r n : Nat} (hr : r < 25) (hn : n < 80) :
    (scrolled t).get (r * 80 + n) =
      if r < 24 then t.buffer.get ((r + 1) * 80 + n) else .ok (vgaEntry 0x20#8 t.color) := by
  unfold scrolled
  rw [Buffer.get_filled _ _ (show r * 80 + n < 2000 by omega)]
  by_cases h : r < 24
  · rw [if_neg (by omega), if_pos h, Buffer.get_ok (show (r + 1) * 80 + n < 2000 by omega)]
    unfold Buffer.shifted
    dsimp only
    rw [dif_pos (by omega)]
    congr 3
    omega
  · rw [if_pos (by omega), if_neg h]

/-- The controller's cursor plays no part. -/
theorem Screen.updateCursor (h : Screen t g) : Screen (terminalUpdateCursor t) g :=
  ⟨h.row, h.column, h.rows, h.columns, h.color, h.shown⟩

theorem Screen.move (h : Screen t g) {r n row : Nat} (hrow : row = g.top + r) (hr : r < 25)
    (hn : n < 80) : Screen { t with row := r, column := n } { g with row := row, column := n } :=
  ⟨hrow, rfl, hr, hn, h.color, h.shown⟩

/-- A cell is written on both sides. -/
theorem Screen.write (h : Screen t g) {x y : Nat} (hx : x < 80) (hy : y < 25) (c : Byte) :
    ∃ t', terminalPutentryat t c t.color x y = .ok t' ∧ t'.row = t.row ∧ t'.column = t.column ∧
      Screen t' (g.write (g.top + y) x c) := by
  refine ⟨_, terminalPutentryat_ok _ hx hy, rfl, rfl, h.row, h.column, h.rows, h.columns, h.color,
    fun r n hr hn => ?_⟩
  show (t.buffer.upd (y * 80 + x) (vgaEntry c t.color)).get (r * 80 + n) =
    .ok (vgaEntry (if g.top + r = g.top + y ∧ n = x then c else g.cell (g.top + r) n) normalColor)
  rw [get_upd_cell hx hy hn, h.color]
  by_cases hc : r = y ∧ n = x
  · rw [if_pos hc, if_pos (by omega)]
  · rw [if_neg hc, if_neg (by omega)]
    exact h.shown r n hr hn

/-- The cursor goes to the next row. -/
theorem Screen.nextRow (h : Screen t g) (he : g.EmptyFrom ((g.row + 1) * 80)) :
    ∃ t', terminalNextRow t = .ok t' ∧ Screen t' g.nextRow := by
  have hrow := h.row
  have hrows := h.rows
  unfold terminalNextRow
  dsimp only
  by_cases hend : t.row + 1 = 25
  · -- the window moves down, and the screen up
    have htop : g.nextRow = { g with row := g.row + 1, column := 0, top := g.top + 1 } := by
      unfold Grid.nextRow
      rw [if_neg (by omega)]
    rw [if_pos hend, terminalScrollUp_ok, htop]
    refine ⟨_, rfl, Screen.updateCursor ⟨?_, rfl, (by decide : 24 < 25), (by decide : 0 < 80),
      h.color, fun r n hr hn => ?_⟩⟩
    · show g.row + 1 = g.top + 1 + 24
      omega
    · refine (get_scrolled hr hn).trans ?_
      show _ = Except.ok (vgaEntry (g.cell (g.top + 1 + r) n) normalColor)
      by_cases hr24 : r < 24
      · rw [if_pos hr24, Nat.add_assoc, Nat.add_comm 1 r]
        exact h.shown (r + 1) n (by omega) hn
      · rw [if_neg hr24, he (g.top + 1 + r) n hn (by omega), h.color]
  · have htop : g.nextRow = { g with row := g.row + 1, column := 0 } := by
      unfold Grid.nextRow
      rw [if_pos (by omega)]
    rw [if_neg hend, htop]
    exact ⟨_, rfl, h.move (by omega) (show t.row + 1 < 25 by omega) (by decide)⟩

theorem Window.nextRow (h : Window t g) :
    ∃ t', terminalNextRow t = .ok t' ∧ Window t' g.nextRow := by
  have hcol := h.column
  have hcols := h.columns
  have he : g.EmptyFrom ((g.row + 1) * 80) := fun r n hn hle => h.empty r n hn (by omega)
  obtain ⟨t', e, h'⟩ := h.toScreen.nextRow he
  exact ⟨t', e, h', he⟩

/-- One blank more in front of the blanks. -/
theorem Grid.EmptyFrom.write_blank {p r n : Nat} (h : g.EmptyFrom p) (hn : n < 80)
    (hp : p ≤ r * 80 + n + 1) : (g.write r n 0x20#8).EmptyFrom (r * 80 + n) :=
  fun r' n' hn' hle => by
    by_cases hc : r' = r ∧ n' = n
    · exact if_pos hc
    · exact (if_neg hc).trans (h r' n' hn' (by omega))

theorem Window.backspace (h : Window t g) :
    ∃ t', terminalBackspace t = .ok t' ∧ Window t' g.backspace := by
  have hrow := h.row
  have hcol := h.column
  have hrows := h.rows
  have hcols := h.columns
  unfold terminalBackspace Grid.backspace
  by_cases hc : t.column = 0
  · by_cases hr : t.row = 0
    · rw [if_pos ⟨hc, hr⟩, if_pos (by omega), if_pos (by omega)]
      exact ⟨t, rfl, h⟩
    · have hlt : t.row - 1 < 25 := by omega
      have hgrow : g.row - 1 = g.top + (t.row - 1) := by omega
      obtain ⟨t', e, -, -, h'⟩ :=
        (h.toScreen.move hgrow hlt (by decide : 79 < 80)).write (by decide : 79 < 80) hlt 0x20#8
      rw [if_neg (by omega), if_pos hc, if_pos (by omega), if_neg (by omega)]
      dsimp only at h'
      rw [← hgrow] at h'
      have he : (g.write (g.row - 1) 79 0x20#8).EmptyFrom ((g.row - 1) * 80 + 79) :=
        h.empty.write_blank (by decide) (by omega)
      exact ⟨_, bind_ok.mpr ⟨t', e, rfl⟩, h'.updateCursor, he⟩
  · have hlt : t.column - 1 < 80 := by omega
    obtain ⟨t', e, -, -, h'⟩ := (h.toScreen.move hrow hrows hlt).write hlt hrows 0x20#8
    rw [if_neg (by omega), if_neg hc, if_neg (by omega)]
    dsimp only at h'
    rw [← hrow, ← hcol] at h'
    have he : (g.write g.row (g.column - 1) 0x20#8).EmptyFrom (g.row * 80 + (g.column - 1)) :=
      h.empty.write_blank (by omega) (by omega)
    exact ⟨_, bind_ok.mpr ⟨t', e, rfl⟩, h'.updateCursor, he⟩

theorem Window.print (h : Window t g) (c : Byte) : ∃ t₁ t₂,
    terminalPutentryat t c t.color t.column t.row = .ok t₁ ∧
    (if t₁.column + 1 = 80 then terminalNextRow t₁ else .ok { t₁ with column := t₁.column + 1 }) =
      .ok t₂ ∧ Window t₂ (g.print c) := by
  have hcol := h.column
  have hcols := h.columns
  obtain ⟨t₁, e₁, hr₁, hc₁, h₁⟩ := h.toScreen.write hcols h.rows c
  rw [← h.row, ← hcol] at h₁
  -- only the cell at the cursor was written
  have he : (g.write g.row g.column c).EmptyFrom (g.row * 80 + g.column + 1) :=
    fun r n hn hle => (if_neg (by omega)).trans (h.empty r n hn (by omega))
  unfold Grid.print
  by_cases hend : g.column = 79
  · have hnext : (g.write g.row g.column c).EmptyFrom ((g.row + 1) * 80) := fun r n hn hle =>
      he r n hn (by omega)
    obtain ⟨t₂, e₂, h₂⟩ := h₁.nextRow hnext
    rw [if_pos hend]
    exact ⟨t₁, t₂, e₁, (if_pos (by omega)).trans e₂, h₂, hnext⟩
  · rw [if_neg hend]
    have hmove := h₁.move h₁.row h₁.rows (show g.column + 1 < 80 by omega)
    have hc₁' : t₁.column + 1 = g.column + 1 := by omega
    refine ⟨t₁, _, e₁, if_neg (by omega), ?_, he⟩
    rw [hc₁']
    exact hmove

/-- **Each byte keeps the screen the window.** -/
theorem Window.put (h : Window t g) (c : Byte) :
    ∃ t', terminalPutchar t c = .ok t' ∧ Window t' (g.put c) := by
  unfold terminalPutchar Grid.put
  by_cases hb : c = 0x08#8
  · rw [if_pos hb, if_pos hb]
    exact h.backspace
  rw [if_neg hb, if_neg hb]
  by_cases hnl : c = 0x0a#8
  · obtain ⟨t', e, h'⟩ := h.nextRow
    rw [if_pos hnl, if_pos hnl]
    exact ⟨_, bind_ok.mpr ⟨t', e, rfl⟩, h'.toScreen.updateCursor, h'.empty⟩
  · obtain ⟨t₁, t₂, e₁, e₂, h₂⟩ := h.print c
    rw [if_neg hnl, if_neg hnl]
    exact ⟨_, bind_ok.mpr ⟨t₁, e₁, bind_ok.mpr ⟨t₂, e₂, rfl⟩⟩, h₂.toScreen.updateCursor, h₂.empty⟩

/-- **So does any sequence of bytes.** -/
theorem Window.write (h : Window t g) (data : List Byte) :
    ∃ t', terminalWrite t data = .ok t' ∧ Window t' (data.foldl Grid.put g) := by
  unfold terminalWrite
  induction data generalizing t g with
  | nil => exact ⟨t, rfl, h⟩
  | cons c data ih =>
    obtain ⟨t₁, e₁, h₁⟩ := h.put c
    obtain ⟨t', e, h'⟩ := ih h₁
    exact ⟨t', bind_ok.mpr ⟨t₁, e₁, e⟩, h'⟩

/-- A row of blanks. -/
theorem initRow_ok (t : Terminal) {y : Nat} (hy : y < 25) :
    (List.range 80).foldlM (fun t x => terminalPutentryat t 0x20#8 t.color x y) t =
      .ok { t with buffer := t.buffer.filled (fun _ => vgaEntry 0x20#8 t.color) (y * 80) 80 } := by
  -- the loop touches the buffer only
  have hloop : ∀ (l : List Nat) (b : Buffer (BitVec 16) 2000),
      l.foldlM (fun t x => terminalPutentryat t 0x20#8 t.color x y) { t with buffer := b } =
        (l.foldlM (fun (b : Buffer (BitVec 16) 2000) x =>
          b.set (y * 80 + x) (vgaEntry 0x20#8 t.color)) b).map fun b => { t with buffer := b } := by
    intro l
    induction l with
    | nil => exact fun b => rfl
    | cons x l ih =>
      intro b
      rw [List.foldlM_cons, List.foldlM_cons]
      unfold terminalPutentryat
      cases hs : b.set (y * 80 + x) (vgaEntry 0x20#8 t.color) with
      | error e => rfl
      | ok b' => exact ih b'
  have h := hloop (List.range 80) t.buffer
  rw [Buffer.fill_ok _ (fun _ => vgaEntry 0x20#8 t.color) (y * 80) 80 (by omega)] at h
  exact h

/-- The first `m` rows of blanks. -/
theorem initRows_ok (t : Terminal) {m : Nat} (hm : m ≤ 25) :
    (List.range m).foldlM (fun t y =>
      (List.range 80).foldlM (fun t x => terminalPutentryat t 0x20#8 t.color x y) t) t =
      .ok { t with buffer := t.buffer.filled (fun _ => vgaEntry 0x20#8 t.color) 0 (m * 80) } := by
  induction m with
  | zero =>
    rw [Nat.zero_mul, Buffer.filled_zero]
    rfl
  | succ m ih =>
    rw [@List.range_succ m, List.foldlM_append, ih (by omega), ok_bind, List.foldlM_cons,
      initRow_ok _ (by omega), ok_bind]
    refine congrArg (fun b => Except.ok { t with buffer := b }) (Buffer.ext (funext fun j => ?_))
    unfold Buffer.filled
    dsimp only
    by_cases h1 : j.val < m * 80
    · rw [if_neg (by omega), if_pos (by omega), if_pos (by omega)]
    · by_cases h2 : j.val < (m + 1) * 80
      · rw [if_pos (by omega), if_pos (by omega)]
      · rw [if_neg (by omega), if_neg (by omega), if_neg (by omega)]

/-- **`terminal_init` clears the screen**, whatever it held. -/
theorem window_init (t : Terminal) : ∃ t', terminalInit t = .ok t' ∧ Window t' .blank := by
  unfold terminalInit
  dsimp only
  rw [initRows_ok _ (Nat.le_refl 25)]
  refine ⟨_, rfl, Screen.updateCursor ⟨rfl, rfl, (by decide : 0 < 25), (by decide : 0 < 80), rfl,
    fun r n hr hn => ?_⟩, fun r n hn hle => rfl⟩
  dsimp only
  rw [Buffer.get_filled _ _ (show r * 80 + n < 2000 by omega), if_pos (by omega)]
  rfl

/-- **THE TERMINAL REFINES AN UNBOUNDED GRID.** After `terminal_init` and any bytes, none of whose
    writes missed the screen: the screen is the window of the grid that got the same bytes, the
    cursor is in it and at the grid's cursor, and from the cursor on the screen is blank. -/
theorem terminal_refines (t₀ : Terminal) (data : List Byte) :
    ∃ t t', terminalInit t₀ = .ok t ∧ terminalWrite t data = .ok t' ∧ t'.row < 25 ∧
      t'.column < 80 ∧
      (∀ i, i < 2000 → t'.row * 80 + t'.column ≤ i →
        t'.buffer.get i = .ok (vgaEntry 0x20#8 normalColor)) ∧
      Screen t' (data.foldl Grid.put .blank) := by
  obtain ⟨t, e, h⟩ := window_init t₀
  obtain ⟨t', e', h'⟩ := h.write data
  refine ⟨t, t', e, e', h'.rows, h'.columns, fun i hi hle => ?_, h'.toScreen⟩
  have hrow := h'.row
  have hcol := h'.column
  have hshown := h'.shown (i / 80) (i % 80) (by omega) (by omega)
  rw [h'.empty _ (i % 80) (by omega) (by omega), show i / 80 * 80 + i % 80 = i by omega] at hshown
  exact hshown

end

end Emyx

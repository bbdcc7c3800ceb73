/-
  File:      Emyx/Keyboard.lean
  Subject:   THE KEYBOARD BUFFER (keyboard.c): a ring of 32 characters between the keyboard
             interrupt and the reading process.
-/
import Emyx.Lib.Memory

namespace Emyx

open Lib

structure Keyboard where
  buffer : Nat → Byte
  readIndex : Nat
  writeIndex : Nat

/-- `keyboard_buffer_push` -/
def keyboardBufferPush (kb : Keyboard) (c : Byte) : Keyboard :=
  if c = 0 then kb
  else
    let next := (kb.writeIndex + 1) % 32
    if next = kb.readIndex then kb
    else { kb with buffer := Function.update kb.buffer kb.writeIndex c, writeIndex := next }

/-- `keyboard_buffer_pop`: a `char` is signed, so the conversion to `uint32_t` extends its sign. -/
def keyboardBufferPop (kb : Keyboard) : Nat × Keyboard :=
  if kb.readIndex = kb.writeIndex then (0, kb)
  else
    (((kb.buffer kb.readIndex).signExtend 32).toNat, { kb with readIndex := (kb.readIndex + 1) % 32 })

/-- `keyboard_buffer_clear` -/
def keyboardBufferClear (kb : Keyboard) : Keyboard := { kb with readIndex := kb.writeIndex }

end Emyx

import OpenKernel.CountedLoops

/-!
# Writing to the framebuffer

The types of `bootloader_api` that describe the framebuffer and the functions of
`src/vga_buffer.rs` that touch its bytes.  The memory is a function of the offset
from the framebuffer's address; an access at or beyond `byte_len` is `none`.

`Fits` is what makes the accesses safe and the pixels independent of each other.
The specifications below it describe the memory by its visible pixels:
`writePixel_spec` for one pixel, `paint_spec` for the nested loops that all
drawing consists of, and `copyUp_spec` for the byte loop of `scroll`.
-/

namespace OpenKernel
namespace Vga

section Accesses

inductive PixelFormat where
  | Rgb
  | Bgr

structure FrameBufferInfo where
  address : Nat
  byteLen : Nat
  width : Nat
  height : Nat
  stride : Nat
  pixelFormat : PixelFormat

/-- Red, green and blue. -/
abbrev Rgb := UInt8 × UInt8 × UInt8

/-- The bytes from the framebuffer's address on. -/
abbrev Memory := Nat → UInt8

/-- `read_volatile` at an offset from the address. -/
def load (fb : FrameBufferInfo) (mem : Memory) (offset : Nat) : Option UInt8 :=
  if offset < fb.byteLen then some (mem offset) else none

/-- `write_volatile` at an offset from the address. -/
def store (fb : FrameBufferInfo) (offset : Nat) (value : UInt8) (mem : Memory) :
    Option Memory :=
  if offset < fb.byteLen then some (Function.update mem offset value) else none

/-- The first three bytes of a pixel. -/
def channels (fb : FrameBufferInfo) (color : Rgb) : UInt8 × UInt8 × UInt8 :=
  let (red, green, blue) := color
  match fb.pixelFormat with
  | .Rgb => (red, green, blue)
  | .Bgr => (blue, green, red)

/-- The offset of the first byte of a pixel. -/
def pixelOffset (fb : FrameBufferInfo) (x y : Nat) : Nat :=
  (y * fb.stride + x) * 4

def writePixel (fb : FrameBufferInfo) (x y : Nat) (color : Rgb) (mem : Memory) :
    Option Memory :=
  if fb.width ≤ x ∨ fb.height ≤ y then
    some mem
  else
    let offset := pixelOffset fb x y
    let (first, second, third) := channels fb color
    (store fb offset first mem).bind fun mem =>
    (store fb (offset + 1) second mem).bind fun mem =>
    (store fb (offset + 2) third mem).bind fun mem =>
    store fb (offset + 3) 0 mem

/-- `for y in ys { for x in xs { write_pixel(left + x, top + y, color) } }`. -/
def paint (fb : FrameBufferInfo) (left top : Nat) (xs ys : Nat × Nat)
    (color : Nat → Nat → Rgb) (mem : Memory) :
    Option Memory :=
  forRange ys.1 ys.2 (fun y =>
    forRange xs.1 xs.2 (fun x => writePixel fb (left + x) (top + y) (color x y))) mem

/-- The byte loop of `scroll`. -/
def copyUp (fb : FrameBufferInfo) (scrollBytes : Nat) (mem : Memory) : Option Memory :=
  let retainedBytes := fb.byteLen - scrollBytes
  forRange 0 retainedBytes (fun index mem =>
    (load fb mem (index + scrollBytes)).bind fun value =>
    store fb index value mem) mem

end Accesses

section Pixels

/-- Rows do not overlap, and all visible pixels lie inside the buffer. -/
structure Fits (fb : FrameBufferInfo) : Prop where
  width_le_stride : fb.width ≤ fb.stride
  bytes_le : fb.stride * fb.height * 4 ≤ fb.byteLen

/-- The four bytes of a pixel. -/
abbrev Quad := UInt8 × UInt8 × UInt8 × UInt8

def pixel (fb : FrameBufferInfo) (mem : Memory) (x y : Nat) : Quad :=
  let offset := pixelOffset fb x y
  (mem offset, mem (offset + 1), mem (offset + 2), mem (offset + 3))

/-- The four bytes that show a colour. -/
def encode (fb : FrameBufferInfo) (color : Rgb) : Quad :=
  let (first, second, third) := channels fb color
  (first, second, third, 0)

/-- The memory with four bytes written at an offset. -/
def putQuad (mem : Memory) (offset : Nat) (bytes : Quad) : Memory :=
  Function.update (Function.update (Function.update (Function.update mem
    offset bytes.1) (offset + 1) bytes.2.1) (offset + 2) bytes.2.2.1)
    (offset + 3) bytes.2.2.2

variable {fb : FrameBufferInfo}

theorem pixelOffset_lt
    (hfits : Fits fb)
    {x y : Nat}
    (hx : x < fb.width) (hy : y < fb.height) :
    pixelOffset fb x y + 3 < fb.byteLen := by
  have hrow : (y + 1) * fb.stride ≤ fb.height * fb.stride :=
    Nat.mul_le_mul_right fb.stride hy
  have hstride := hfits.width_le_stride
  have hbytes := hfits.bytes_le
  rw [Nat.mul_comm fb.stride fb.height] at hbytes
  rw [Nat.succ_mul] at hrow
  unfold pixelOffset
  omega

/-- Different visible pixels share no byte. -/
theorem pixelOffset_inj
    (hfits : Fits fb)
    {x y x' y' i j : Nat}
    (hx : x < fb.width) (hx' : x' < fb.width)
    (hi : i < 4) (hj : j < 4)
    (h : pixelOffset fb x y + i = pixelOffset fb x' y' + j) :
    x = x' ∧ y = y' := by
  have hstride := hfits.width_le_stride
  have hindex : y * fb.stride + x = y' * fb.stride + x' := by
    unfold pixelOffset at h
    omega
  have hcol : x = x' := by
    have hmod := congrArg (· % fb.stride) hindex
    simp only [Nat.mul_add_mod_self_right] at hmod
    rwa [Nat.mod_eq_of_lt (by omega), Nat.mod_eq_of_lt (by omega)] at hmod
  have hrow : y * fb.stride = y' * fb.stride := by
    omega
  exact ⟨hcol, Nat.eq_of_mul_eq_mul_right (by omega) hrow⟩

theorem putQuad_of_ne
    {offset k : Nat}
    (h : ∀ i, i < 4 → k ≠ offset + i)
    (mem : Memory) (bytes : Quad) :
    putQuad mem offset bytes k = mem k := by
  have h₀ : k ≠ offset := h 0 (by omega)
  have h₁ := h 1 (by omega)
  have h₂ := h 2 (by omega)
  have h₃ := h 3 (by omega)
  simp [putQuad, Function.update_of_ne, h₀, h₁, h₂, h₃]

theorem store_of_lt
    {offset : Nat}
    (h : offset < fb.byteLen)
    (value : UInt8) (mem : Memory) :
    store fb offset value mem = some (Function.update mem offset value) := by
  simp [store, h]

theorem writePixel_of_visible
    (hfits : Fits fb)
    {x y : Nat}
    (hx : x < fb.width) (hy : y < fb.height)
    (color : Rgb) (mem : Memory) :
    writePixel fb x y color mem =
      some (putQuad mem (pixelOffset fb x y) (encode fb color)) := by
  have hlt := pixelOffset_lt hfits hx hy
  have hvisible : ¬ (fb.width ≤ x ∨ fb.height ≤ y) := by omega
  rw [writePixel, if_neg hvisible]
  dsimp only
  rw [store_of_lt (by omega), Option.bind_some, store_of_lt (by omega),
    Option.bind_some, store_of_lt (by omega), Option.bind_some, store_of_lt hlt]
  rfl

/-- Writing a pixel changes that pixel, if it is visible, and no other visible one. -/
theorem writePixel_spec
    (hfits : Fits fb)
    (x y : Nat) (color : Rgb) (mem : Memory) :
    ∃ mem', writePixel fb x y color mem = some mem' ∧
      ∀ x' y', x' < fb.width → y' < fb.height →
        pixel fb mem' x' y' =
          if x' = x ∧ y' = y then encode fb color else pixel fb mem x' y' := by
  by_cases hvisible : x < fb.width ∧ y < fb.height
  · refine ⟨_, writePixel_of_visible hfits hvisible.1 hvisible.2 color mem, ?_⟩
    intro x' y' hx' hy'
    by_cases hsame : x' = x ∧ y' = y
    · obtain ⟨rfl, rfl⟩ := hsame
      simp [pixel, putQuad]
    · have hoff : ∀ i j, i < 4 → j < 4 →
          pixelOffset fb x' y' + i ≠ pixelOffset fb x y + j :=
        fun i j hi hj heq => hsame (pixelOffset_inj hfits hx' hvisible.1 hi hj heq)
      have hkeep : ∀ i, i < 4 →
          putQuad mem (pixelOffset fb x y) (encode fb color) (pixelOffset fb x' y' + i) =
            mem (pixelOffset fb x' y' + i) :=
        fun i hi => putQuad_of_ne (fun j hj => hoff i j hi hj) mem _
      have hkeep₀ := hkeep 0 (by omega)
      rw [Nat.add_zero] at hkeep₀
      rw [if_neg hsame]
      simp only [pixel, hkeep₀, hkeep 1 (by omega), hkeep 2 (by omega), hkeep 3 (by omega)]
  · refine ⟨mem, ?_, ?_⟩
    · have hhidden : fb.width ≤ x ∨ fb.height ≤ y := by omega
      simp [writePixel, hhidden]
    · intro x' y' hx' hy'
      have hother : ¬ (x' = x ∧ y' = y) := by omega
      rw [if_neg hother]

/-- The inner loop colours its row and nothing else that is visible. -/
theorem paintRow_spec
    (hfits : Fits fb)
    (left row : Nat) {lo hi : Nat}
    (hle : lo ≤ hi)
    (color : Nat → Rgb) (mem : Memory) :
    ∃ mem', forRange lo hi (fun x => writePixel fb (left + x) row (color x)) mem =
        some mem' ∧
      ∀ x y, x < fb.width → y < fb.height →
        pixel fb mem' x y =
          if (left + lo ≤ x ∧ x < left + hi) ∧ y = row then
            encode fb (color (x - left))
          else pixel fb mem x y := by
  refine forRange_total (fun j mem' => ∀ x y, x < fb.width → y < fb.height →
    pixel fb mem' x y =
      if (left + lo ≤ x ∧ x < left + j) ∧ y = row then
        encode fb (color (x - left))
      else pixel fb mem x y) hle ?_ ?_
  · intro j memCols hlo _ hcols
    obtain ⟨mem', hwrite, hpixels⟩ := writePixel_spec hfits (left + j) row (color j) memCols
    refine ⟨mem', hwrite, ?_⟩
    intro x y hx hy
    rw [hpixels x y hx hy]
    by_cases hhere : x = left + j ∧ y = row
    · obtain ⟨rfl, rfl⟩ := hhere
      have hnow : (left + lo ≤ left + j ∧ left + j < left + (j + 1)) ∧ y = y := by
        omega
      have hoff : left + j - left = j := by omega
      rw [if_pos ⟨rfl, rfl⟩, if_pos hnow, hoff]
    · rw [if_neg hhere, hcols x y hx hy]
      have hsame : ((left + lo ≤ x ∧ x < left + j) ∧ y = row) ↔
          ((left + lo ≤ x ∧ x < left + (j + 1)) ∧ y = row) := by
        omega
      simp only [hsame]
  · intro x y _ _
    have hempty : ¬ ((left + lo ≤ x ∧ x < left + lo) ∧ y = row) := by omega
    rw [if_neg hempty]

/-- The nested loops colour their rectangle and nothing else that is visible. -/
theorem paint_spec
    (hfits : Fits fb)
    (left top : Nat) (xs ys : Nat × Nat)
    (hxs : xs.1 ≤ xs.2) (hys : ys.1 ≤ ys.2)
    (color : Nat → Nat → Rgb) (mem : Memory) :
    ∃ mem', paint fb left top xs ys color mem = some mem' ∧
      ∀ x y, x < fb.width → y < fb.height →
        pixel fb mem' x y =
          if (left + xs.1 ≤ x ∧ x < left + xs.2) ∧ (top + ys.1 ≤ y ∧ y < top + ys.2) then
            encode fb (color (x - left) (y - top))
          else pixel fb mem x y := by
  -- before turn `k` the rectangle is coloured down to row `k`
  refine forRange_total (fun k mem' => ∀ x y, x < fb.width → y < fb.height →
    pixel fb mem' x y =
      if (left + xs.1 ≤ x ∧ x < left + xs.2) ∧ (top + ys.1 ≤ y ∧ y < top + k) then
        encode fb (color (x - left) (y - top))
      else pixel fb mem x y) hys ?_ ?_
  · intro k memRows hlo _ hrows
    obtain ⟨mem', hrow, hpixels⟩ :=
      paintRow_spec hfits left (top + k) hxs (fun x => color x k) memRows
    refine ⟨mem', hrow, ?_⟩
    intro x y hx hy
    rw [hpixels x y hx hy]
    by_cases hhere : (left + xs.1 ≤ x ∧ x < left + xs.2) ∧ y = top + k
    · have hnow : (left + xs.1 ≤ x ∧ x < left + xs.2) ∧
          (top + ys.1 ≤ y ∧ y < top + (k + 1)) := by
        omega
      have hoff : y - top = k := by omega
      rw [if_pos hhere, if_pos hnow, hoff]
    · rw [if_neg hhere, hrows x y hx hy]
      have hsame : ((left + xs.1 ≤ x ∧ x < left + xs.2) ∧ (top + ys.1 ≤ y ∧ y < top + k)) ↔
          ((left + xs.1 ≤ x ∧ x < left + xs.2) ∧ (top + ys.1 ≤ y ∧ y < top + (k + 1))) := by
        omega
      simp only [hsame]
  · intro x y _ _
    have hempty : ¬ ((left + xs.1 ≤ x ∧ x < left + xs.2) ∧
        (top + ys.1 ≤ y ∧ y < top + ys.1)) := by
      omega
    rw [if_neg hempty]

/-- The ascending byte loop moves the retained bytes as if all at once. -/
theorem copyUp_spec
    (fb : FrameBufferInfo)
    (scrollBytes : Nat) (mem : Memory) :
    ∃ mem', copyUp fb scrollBytes mem = some mem' ∧
      ∀ i, mem' i =
        if i < fb.byteLen - scrollBytes then mem (i + scrollBytes) else mem i := by
  refine forRange_total (fun k (mem' : Memory) => ∀ i, mem' i =
    if i < k then mem (i + scrollBytes) else mem i) (Nat.zero_le _) ?_ ?_
  · intro k memSoFar _ hk hsofar
    have hread : k + scrollBytes < fb.byteLen := by omega
    -- the byte read has not been overwritten yet
    have hvalue : memSoFar (k + scrollBytes) = mem (k + scrollBytes) := by
      rw [hsofar, if_neg (by omega)]
    refine ⟨Function.update memSoFar k (mem (k + scrollBytes)), ?_, ?_⟩
    · rw [load, if_pos hread, Option.bind_some, store_of_lt (by omega), hvalue]
    · intro i
      by_cases hik : i = k
      · subst hik
        simp
      · rw [Function.update_of_ne hik, hsofar]
        have hsame : i < k ↔ i < k + 1 := by omega
        simp only [hsame]
  · intro i
    simp

/-- Moving up by whole pixel rows moves every pixel that has one below it. -/
theorem copyUp_pixel
    (hfits : Fits fb)
    (rows : Nat) (mem : Memory) :
    ∃ mem', copyUp fb (rows * (fb.stride * 4)) mem = some mem' ∧
      ∀ x y, x < fb.width → y + rows < fb.height →
        pixel fb mem' x y = pixel fb mem x (y + rows) := by
  obtain ⟨mem', hcopy, hbytes⟩ := copyUp_spec fb (rows * (fb.stride * 4)) mem
  refine ⟨mem', hcopy, ?_⟩
  intro x y hx hy
  have hlt := pixelOffset_lt hfits hx hy
  have hshift : pixelOffset fb x (y + rows) =
      pixelOffset fb x y + rows * (fb.stride * 4) := by
    unfold pixelOffset
    ring
  have hbyte : ∀ i, i < 4 → mem' (pixelOffset fb x y + i) =
      mem (pixelOffset fb x (y + rows) + i) := by
    intro i hi
    have hretained : pixelOffset fb x y + i < fb.byteLen - rows * (fb.stride * 4) := by
      omega
    rw [hbytes, if_pos hretained, hshift]
    congr 1
    omega
  have hbyte₀ := hbyte 0 (by omega)
  simp only [Nat.add_zero] at hbyte₀
  simp only [pixel, hbyte₀, hbyte 1 (by omega), hbyte 2 (by omega), hbyte 3 (by omega)]

end Pixels

end Vga
end OpenKernel

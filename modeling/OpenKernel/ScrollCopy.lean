import OpenKernel.Console
import OpenKernel.MachineWords

/-!
# The copy loop of `scroll`

`Writer::scroll` moves the bytes of the framebuffer up by one text row, in a loop
that reads and writes the same buffer.  `scrollCopy` is this part of `scroll` with
the machine words it computes in; `moveUp` moves all bytes at once.

The loop reads ahead of what it has overwritten (`copyUp_spec`), so that the two
agree for every shift.  Where the size of a text row fits in a word, which the
assertions of `init` imply, `scrollCopy` is the copy that `Console.scroll` starts
with.
-/

namespace OpenKernel
namespace Vga

section AtOnce

/-- The bytes that have one `shift` further on in the buffer become it, all at once. -/
def moveUp (byteLen shift : Nat) (mem : Memory) : Memory :=
  fun i => if i < byteLen - shift then mem (i + shift) else mem i

theorem moveUp_of_lt
    {byteLen shift i : Nat}
    (h : i < byteLen - shift)
    (mem : Memory) :
    moveUp byteLen shift mem i = mem (i + shift) :=
  if_pos h

theorem moveUp_of_le
    {byteLen shift i : Nat}
    (h : byteLen - shift ≤ i)
    (mem : Memory) :
    moveUp byteLen shift mem i = mem i :=
  if_neg (Nat.not_lt_of_le h)

/-- A buffer no longer than the shift has no byte to move. -/
theorem moveUp_of_short
    {byteLen shift : Nat}
    (h : byteLen ≤ shift)
    (mem : Memory) :
    moveUp byteLen shift mem = mem :=
  funext fun _ => moveUp_of_le (by omega) mem

/-- The ascending loop moves the bytes at once, however its two ranges overlap. -/
theorem copyUp_eq_moveUp
    (fb : FrameBufferInfo) (shift : Nat) (mem : Memory) :
    copyUp fb shift mem = some (moveUp fb.byteLen shift mem) := by
  obtain ⟨mem', hcopy, hbytes⟩ := copyUp_spec fb shift mem
  rw [hcopy, show mem' = moveUp fb.byteLen shift mem from funext hbytes]

example :
    (copyUp ⟨0x80000000, 5, 0, 0, 0, .Rgb⟩ 2 Nat.toUInt8).map
      (fun mem => (List.range 7).map mem) = some [2, 3, 4, 3, 4, 5, 6] := by
  decide

end AtOnce

section Words

/-- `FrameBufferInfo` in machine words. -/
structure FrameBufferWords where
  address : UInt64
  byteLen : UInt64
  width : UInt64
  height : UInt64
  stride : UInt64
  pixelFormat : PixelFormat

/-- The framebuffer that the words describe. -/
def FrameBufferWords.info (fb : FrameBufferWords) : FrameBufferInfo where
  address := fb.address.toNat
  byteLen := fb.byteLen.toNat
  width := fb.width.toNat
  height := fb.height.toNat
  stride := fb.stride.toNat
  pixelFormat := fb.pixelFormat

/-- A turn of the loop; `none` if the sum overflows or an access is out of bounds. -/
def copyByte (profile : Profile) (fb : FrameBufferWords) (scrollBytes index : UInt64)
    (mem : Memory) : Option Memory :=
  (profile.addU64 index scrollBytes).toOption.bind fun source =>
  (load fb.info mem source.toNat).bind fun value =>
  store fb.info index.toNat value mem

/-- `for index in 0..retained_bytes`. -/
def copyRetained (profile : Profile) (fb : FrameBufferWords) (scrollBytes : UInt64)
    (mem : Memory) : Option Memory :=
  let retainedBytes := saturatingSubU64 fb.byteLen scrollBytes
  forRange 0 retainedBytes.toNat (fun index =>
    copyByte profile fb scrollBytes (UInt64.ofNat index)) mem

/-- `GLYPH_HEIGHT * row_bytes`, the size of a text row. -/
def scrollBytes (profile : Profile) (fb : FrameBufferWords) : Except ArithPanic UInt64 := do
  let rowBytes ← profile.mulU64 fb.stride 4
  profile.mulU64 (UInt64.ofNat GLYPH_HEIGHT) rowBytes

/-- `scroll` to the end of its byte loop; an error is a panic before the loop. -/
def scrollCopy (profile : Profile) (fb : FrameBufferWords) (mem : Memory) :
    Except ArithPanic (Option Memory) := do
  let scrollBytes ← scrollBytes profile fb
  return copyRetained profile fb scrollBytes mem

/-- The bytes that `scrollCopy` leaves: a panic before the loop has touched none. -/
def bytesLeft (mem : Memory) : Except ArithPanic (Option Memory) → Option Memory
  | .ok mem' => mem'
  | .error _ => some mem

/-- `16 * stride * 4`: exact with overflow checks, the wrapped product without. -/
def textRowBytes (fb : FrameBufferWords) : Profile → Nat
  | .dev => 16 * fb.stride.toNat * 4
  | .release => 16 * fb.stride.toNat * 4 % 2 ^ 64

variable {profile : Profile} {fb : FrameBufferWords}

/-- The offset read is below `byte_len`, so that it is computed without overflow. -/
theorem copyByte_eq
    {scrollBytes : UInt64} {index : Nat}
    (h : index < fb.byteLen.toNat - scrollBytes.toNat) :
    copyByte profile fb scrollBytes (UInt64.ofNat index) = fun mem =>
      (load fb.info mem (index + scrollBytes.toNat)).bind fun value =>
      store fb.info index value mem := by
  have hlen := fb.byteLen.toNat_lt
  have hindex : (UInt64.ofNat index).toNat = index :=
    UInt64.toNat_ofNat_of_lt' (Nat.lt_trans (by omega) hlen)
  have hfits : (UInt64.ofNat index).toNat + scrollBytes.toNat < 2 ^ 64 := by
    omega
  obtain ⟨hsum, hsource⟩ := profile.addU64_of_lt hfits
  funext mem
  rw [copyByte, hsum, Except.toOption, Option.bind_some, hsource, hindex]

/-- The loop in machine words is the exact one. -/
theorem copyRetained_eq
    (scrollBytes : UInt64) (mem : Memory) :
    copyRetained profile fb scrollBytes mem = copyUp fb.info scrollBytes.toNat mem := by
  have hretained := toNat_saturatingSubU64 fb.byteLen scrollBytes
  simp only [copyRetained, copyUp, hretained]
  exact forRange_congr (fun index _ hindex => copyByte_eq hindex) mem

/-- The two products are checked as if they were one. -/
theorem scrollBytes_eq :
    scrollBytes profile fb =
      profile.u64 (16 * fb.stride.toNat * 4) (UInt64.ofNat (16 * fb.stride.toNat * 4)) := by
  have hproduct : UInt64.ofNat GLYPH_HEIGHT * (fb.stride * 4) =
      UInt64.ofNat (16 * fb.stride.toNat * 4) := by
    rw [UInt64.ofNat_mul, UInt64.ofNat_mul, UInt64.ofNat_toNat, UInt64.mul_assoc]
    rfl
  by_cases hrow : fb.stride.toNat * 4 < 2 ^ 64
  · obtain ⟨hrowBytes, htoNat⟩ :
        profile.mulU64 fb.stride 4 = .ok (fb.stride * 4) ∧
          (fb.stride * 4).toNat = fb.stride.toNat * 4 :=
      profile.mulU64_of_lt hrow
    have hexact : (UInt64.ofNat GLYPH_HEIGHT).toNat * (fb.stride * 4).toNat =
        16 * fb.stride.toNat * 4 := by
      rw [htoNat, Nat.mul_assoc]
      rfl
    rw [scrollBytes, hrowBytes, ← hproduct, ← hexact]
    rfl
  · cases profile with
    | dev =>
        have hover : Profile.dev.mulU64 fb.stride 4 = .error .overflow :=
          Profile.dev_u64_of_le (Nat.le_of_not_lt hrow)
        rw [scrollBytes, hover, Profile.dev_u64_of_le (by omega)]
        rfl
    | release =>
        rw [Profile.release_u64, ← hproduct]
        simp only [scrollBytes, Profile.mulU64, Profile.release_u64]
        rfl

/-- Where the size of a text row fits in a word, the copy is the one of `Console.scroll`. -/
theorem scrollCopy_of_fits
    (h : 16 * fb.stride.toNat * 4 < 2 ^ 64)
    (mem : Memory) :
    scrollCopy profile fb mem =
      .ok (copyUp fb.info (GLYPH_HEIGHT * (fb.info.stride * 4)) mem) := by
  have hsize : GLYPH_HEIGHT * (fb.info.stride * 4) =
      (UInt64.ofNat (16 * fb.stride.toNat * 4)).toNat := by
    rw [UInt64.toNat_ofNat_of_lt' h, Nat.mul_assoc]
    rfl
  rw [scrollCopy, scrollBytes_eq, Profile.u64_of_lt h, hsize, ← copyRetained_eq]
  rfl

/-- With overflow checks a text row that does not fit stops `scroll` before the loop. -/
theorem scrollCopy_dev_of_overflow
    (h : 2 ^ 64 ≤ 16 * fb.stride.toNat * 4)
    (mem : Memory) :
    scrollCopy .dev fb mem = .error .overflow := by
  rw [scrollCopy, scrollBytes_eq, Profile.dev_u64_of_le h]
  rfl

/-- Without overflow checks the size of a text row wraps. -/
theorem scrollCopy_release
    (mem : Memory) :
    scrollCopy .release fb mem =
      .ok (copyUp fb.info (16 * fb.stride.toNat * 4 % 2 ^ 64) mem) := by
  rw [scrollCopy, scrollBytes_eq, Profile.release_u64, ← UInt64.toNat_ofNat',
    ← copyRetained_eq]
  rfl

/-- `init` accepts a screen with a text row only if the size of the row fits in a word. -/
theorem textRow_fits
    (hbytes : fb.info.stride * fb.info.height * 4 ≤ fb.info.byteLen)
    (hheight : GLYPH_HEIGHT ≤ fb.info.height) :
    16 * fb.stride.toNat * 4 < 2 ^ 64 := by
  have hlen : fb.info.byteLen < 2 ^ 64 := fb.byteLen.toNat_lt
  have hrow : fb.info.stride * 16 ≤ fb.info.stride * fb.info.height :=
    Nat.mul_le_mul_left fb.info.stride hheight
  have hstride : fb.info.stride = fb.stride.toNat := rfl
  omega

/-- On such a screen `Console.scroll` is this copy and the blank row below it. -/
theorem scroll_eq_scrollCopy
    {c : Console}
    (hframebuffer : c.writer.framebuffer = some fb.info)
    (hbytes : fb.info.stride * fb.info.height * 4 ≤ fb.info.byteLen)
    (hheight : GLYPH_HEIGHT ≤ fb.info.height) :
    ∃ mem, scrollCopy profile fb c.mem = .ok (some mem) ∧
      c.scroll = (paint fb.info 0 0 (0, fb.info.width)
        (fb.info.height - GLYPH_HEIGHT, fb.info.height)
        (fun _ _ => c.writer.background.rgb) mem).map fun mem =>
          ⟨{ c.writer with row := fb.info.height / GLYPH_HEIGHT - 1 }, mem⟩ := by
  obtain ⟨mem, hcopy, -⟩ :=
    copyUp_spec fb.info (GLYPH_HEIGHT * (fb.info.stride * 4)) c.mem
  have hrows : ¬ fb.info.height / GLYPH_HEIGHT = 0 :=
    Nat.ne_of_gt (Nat.div_pos hheight (by decide))
  refine ⟨mem, ?_, ?_⟩
  · rw [scrollCopy_of_fits (textRow_fits hbytes hheight), hcopy]
  · simp only [Console.scroll, hframebuffer, Option.bind_some, hcopy, if_neg hrows]
    exact Option.map_eq_bind.symm

end Words

section Copy

variable (profile : Profile) (fb : FrameBufferWords) (mem : Memory)

theorem bytesLeft_scrollCopy :
    bytesLeft mem (scrollCopy profile fb mem) =
      some (moveUp fb.byteLen.toNat (textRowBytes fb profile) mem) := by
  cases profile with
  | dev =>
      by_cases hfits : 16 * fb.stride.toNat * 4 < 2 ^ 64
      · have hsize : GLYPH_HEIGHT * (fb.info.stride * 4) = textRowBytes fb .dev :=
          (Nat.mul_assoc 16 fb.stride.toNat 4).symm
        rw [scrollCopy_of_fits hfits, bytesLeft, copyUp_eq_moveUp, hsize]
        rfl
      · -- a row that long is longer than the buffer
        have hlen := fb.byteLen.toNat_lt
        have hshort : fb.byteLen.toNat ≤ textRowBytes fb .dev := by
          rw [textRowBytes]
          omega
        rw [scrollCopy_dev_of_overflow (Nat.le_of_not_lt hfits), bytesLeft,
          moveUp_of_short hshort]
  | release =>
      rw [scrollCopy_release, bytesLeft, copyUp_eq_moveUp]
      rfl

theorem scrollCopy_error_iff :
    (∃ panic, scrollCopy profile fb mem = .error panic) ↔
      profile = .dev ∧ 2 ^ 64 ≤ 16 * fb.stride.toNat * 4 := by
  constructor
  · rintro ⟨panic, hpanic⟩
    cases profile with
    | dev =>
        refine ⟨rfl, ?_⟩
        by_contra hfits
        rw [scrollCopy_of_fits (by omega)] at hpanic
        cases hpanic
    | release =>
        rw [scrollCopy_release] at hpanic
        cases hpanic
  · rintro ⟨rfl, hoverflow⟩
    exact ⟨.overflow, scrollCopy_dev_of_overflow hoverflow mem⟩

/-- The copy of `scroll` stays inside the buffer and leaves what moving all its bytes at
once would leave, for every content, length and stride.  Only with overflow checks a
text row of `2 ^ 64` bytes or more stops it, before the loop. -/
theorem scroll_copy_at_once :
    (∃ mem', bytesLeft mem (scrollCopy profile fb mem) = some mem' ∧
      (∀ i, i < fb.byteLen.toNat - textRowBytes fb profile →
        mem' i = mem (i + textRowBytes fb profile)) ∧
      ∀ i, fb.byteLen.toNat - textRowBytes fb profile ≤ i → mem' i = mem i) ∧
    ((∃ panic, scrollCopy profile fb mem = .error panic) ↔
      profile = .dev ∧ 2 ^ 64 ≤ 16 * fb.stride.toNat * 4) := by
  refine ⟨⟨moveUp fb.byteLen.toNat (textRowBytes fb profile) mem, ?_, ?_, ?_⟩, ?_⟩
  · exact bytesLeft_scrollCopy profile fb mem
  · exact fun i hi => moveUp_of_lt hi mem
  · exact fun i hi => moveUp_of_le hi mem
  · exact scrollCopy_error_iff profile fb mem

end Copy

end Vga
end OpenKernel

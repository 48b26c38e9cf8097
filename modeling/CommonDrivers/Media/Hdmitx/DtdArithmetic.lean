import CommonDrivers.Media.Hdmitx.RxCap

/-!
# The arithmetic of detailed timings

`edid_dtd_parsing` tells the 4:3 modes from the 16:9 modes by the size of the image, and divides by
its width; and it sets the pixel clock of 480i60 where that is near 27 MHz. A descriptor may leave
out the size of the image, and the pixel clock may be below 27 MHz: the difference is an `int`, and
any clock below passes the test. These are the only descriptors that go wrong (`dtd_arithmetic`).
-/

namespace CommonDrivers.Media.Hdmitx.RxCap

/-- What `edid_dtd_parsing` divides by. -/
def dtdDivisors (board : Board) (data : Bytes) : List ℕ :=
  if isZeroDtd data then []
  else
    let (t, timing) := dtdMatch board data
    if timing.vic ≠ 0 ∧ is4x3 timing.vic then [t.hImageSize] else []

variable (board : Board) (data : Bytes)

theorem hImageSize_dtdSpecial (t : Dtd) : (dtdSpecial t).hImageSize = t.hImageSize := by
  simp only [dtdSpecial]
  split_ifs <;> rfl

theorem hImageSize_dtdMatch :
    (dtdMatch board data).1.hImageSize = (dtdOfBytes data).hImageSize := by
  rw [← hImageSize_dtdSpecial (dtdOfBytes data), dtdMatch, hdmitxModeMatchDtdTiming]
  split <;> rfl

/-- The width of the image is divided by where the descriptor has the timing of a 4:3 mode: what is
    done with the descriptor before leaves the width as it is. -/
theorem mem_dtdDivisors {d : ℕ} : d ∈ dtdDivisors board data ↔
    (isZeroDtd data = false ∧ is4x3 (dtdMatch board data).2.vic) ∧
      d = (dtdOfBytes data).hImageSize := by
  rw [← hImageSize_dtdMatch board, dtdDivisors]
  cases isZeroDtd data with
  | true => simp
  | false =>
    have hne : is4x3 (dtdMatch board data).2.vic → (dtdMatch board data).2.vic ≠ 0 := by
      intro h hzero
      rw [hzero] at h
      cases h
    simpa using fun _ => hne

/-- The pixel clock is kept, or taken for that of 480i60: from 27 MHz on this is as it should be,
    and below it is not. -/
theorem pixelClock_dtdSpecial (t : Dtd) :
    (dtdSpecial t).pixelClock = t.pixelClock ∨ 2700 ≤ t.pixelClock ∧ t.pixelClock < 2710 ↔
      ((t.flags >>> 1) &&& 0x3 = 0 → t.hActive = 1440 → 2700 ≤ t.pixelClock) := by
  simp only [dtdSpecial]
  split_ifs <;> grind

/-- `edid_dtd_parsing` divides by zero, or takes a clock for one near 27 MHz that is not, exactly
    for a descriptor of a 4:3 mode without the width of its image, and for one of 1440 columns with
    a pixel clock below 27 MHz. -/
theorem dtd_arithmetic : ((∀ d ∈ dtdDivisors board data, d ≠ 0) ∧
      ((dtdSpecial (dtdOfBytes data)).pixelClock = (dtdOfBytes data).pixelClock ∨
        2700 ≤ (dtdOfBytes data).pixelClock ∧ (dtdOfBytes data).pixelClock < 2710)) ↔
    (isZeroDtd data = false → is4x3 (dtdMatch board data).2.vic →
      (dtdOfBytes data).hImageSize ≠ 0) ∧
      (((dtdOfBytes data).flags >>> 1) &&& 0x3 = 0 → (dtdOfBytes data).hActive = 1440 →
        2700 ≤ (dtdOfBytes data).pixelClock) := by
  rw [pixelClock_dtdSpecial]
  refine and_congr_left' ⟨fun h hdtd hmode => ?_, fun h d hd => ?_⟩
  · exact h _ ((mem_dtdDivisors board data).2 ⟨⟨hdtd, hmode⟩, rfl⟩)
  · obtain ⟨⟨hdtd, hmode⟩, rfl⟩ := (mem_dtdDivisors board data).1 hd
    exact h hdtd hmode

/-- A descriptor with the timing of 480p60, and this width of the image. -/
def dtd480p (width : UInt8) : Bytes := fun i =>
  [0x8c, 0x0a, 0xd0, 0x8a, 0x20, 0xe0, 0x2d, 0x10, 0x10, 0x3e, 0x96, 0, width, 90, 0, 0, 0,
    0x18].getD i 0

/-- A descriptor of 1440 columns, with a pixel clock of 10 MHz. -/
def dtdSlow : Bytes := fun i => [0xe8, 0x03, 0xa0, 0, 0x50].getD i 0

theorem dtd_arithmetic_480p : dtdDivisors none (dtd480p 120) = [120] ∧
    ∀ d ∈ dtdDivisors none (dtd480p 120), d ≠ 0 := by
  refine ⟨by decide +kernel, ((dtd_arithmetic none (dtd480p 120)).2 ⟨fun _ _ => ?_, ?_⟩).1⟩
  all_goals decide

/-- Without a width there is a division by zero, and 10 MHz are taken for 27 MHz. -/
theorem dtd_arithmetic_fails : dtdDivisors none (dtd480p 0) = [0] ∧
    (dtdOfBytes dtdSlow).pixelClock = 1000 ∧
      (dtdSpecial (dtdOfBytes dtdSlow)).pixelClock = 2702 := by
  decide +kernel

end CommonDrivers.Media.Hdmitx.RxCap

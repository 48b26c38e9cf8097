import Mathlib

/-!
# The video modes of the HDMI transmitter

The timing tables of `hdmitx_mode.c`, and the searches in them: by the number of the
mode (`hdmitxModeVicToHdmiTiming`), by a detailed timing descriptor of the EDID
(`hdmitxModeMatchDtdTiming`) and by a standard timing (`hdmitxModeMatchVesaTiming`).

A mode is known by its VIC. Those of CEA-861 fit into a byte; the VESA modes, that
have none, are numbered from `vesaOffset` on.
-/

namespace CommonDrivers.Media.Hdmitx

open List

/-- `HDMITX_VESA_OFFSET`. -/
def vesaOffset : ℕ := 0x300

/-- `struct hdmi_timing`; the fields that no search reads are left out. -/
structure HdmiTiming where
  vic : ℕ
  piMode : ℕ
  vFreq : ℕ
  pixelFreq : ℕ
  hTotal : ℕ
  hBlank : ℕ
  hFront : ℕ
  hSync : ℕ
  hActive : ℕ
  vTotal : ℕ
  vBlank : ℕ
  vFront : ℕ
  vSync : ℕ
  vActive : ℕ
deriving DecidableEq

/-! ## The tables -/

/-- The modes 0 to 127 of CEA-861; the first is `INVALID_HDMI_TIMING`. -/
def edidCeaModes0 : List HdmiTiming := [⟨0, 0, 0, 0, 0, 0, 0, 0, 0, 0, 0, 0, 0, 0⟩,
   ⟨1, 1, 59940, 25175, 800, 160, 16, 96, 640, 525, 45, 10, 2, 480⟩,
   ⟨2, 1, 59940, 27000, 858, 138, 16, 62, 720, 525, 45, 9, 6, 480⟩,
   ⟨3, 1, 59940, 27000, 858, 138, 16, 62, 720, 525, 45, 9, 6, 480⟩,
   ⟨4, 1, 60000, 74250, 1650, 370, 110, 40, 1280, 750, 30, 5, 5, 720⟩,
   ⟨5, 0, 60000, 74250, 2200, 280, 88, 44, 1920, 1125, 22, 2, 5, 1080⟩,
   ⟨6, 0, 59940, 27000, 1716, 276, 38, 124, 1440, 525, 22, 4, 3, 480⟩,
   ⟨7, 0, 59940, 27000, 1716, 276, 38, 124, 1440, 525, 22, 4, 3, 480⟩,
   ⟨8, 1, 59826, 27000, 1716, 276, 38, 124, 1440, 263, 23, 5, 3, 240⟩,
   ⟨9, 1, 59826, 27000, 1716, 276, 38, 124, 1440, 263, 23, 5, 3, 240⟩,
   ⟨10, 0, 59940, 54000, 3432, 552, 76, 248, 2880, 525, 22, 4, 3, 480⟩,
   ⟨11, 0, 59940, 54000, 3432, 552, 76, 248, 2880, 525, 22, 4, 3, 480⟩,
   ⟨12, 1, 59826, 54000, 3432, 552, 76, 248, 2880, 263, 23, 5, 3, 240⟩,
   ⟨13, 1, 59826, 54000, 3432, 552, 76, 248, 2880, 263, 23, 5, 3, 240⟩,
   ⟨14, 1, 59940, 54000, 1716, 276, 32, 124, 1440, 525, 45, 9, 6, 480⟩,
   ⟨15, 1, 59940, 54000, 1716, 276, 32, 124, 1440, 525, 45, 9, 6, 480⟩,
   ⟨16, 1, 60000, 148500, 2200, 280, 88, 44, 1920, 1125, 45, 4, 5, 1080⟩,
   ⟨17, 1, 50000, 27000, 864, 144, 12, 64, 720, 625, 49, 5, 5, 576⟩,
   ⟨18, 1, 50000, 27000, 864, 144, 12, 64, 720, 625, 49, 5, 5, 576⟩,
   ⟨19, 1, 50000, 74250, 1980, 700, 440, 40, 1280, 750, 30, 5, 5, 720⟩,
   ⟨20, 0, 50000, 74250, 2640, 720, 528, 44, 1920, 1125, 22, 2, 5, 1080⟩,
   ⟨21, 0, 50000, 27000, 1728, 288, 24, 126, 1440, 625, 24, 2, 3, 576⟩,
   ⟨22, 0, 50000, 27000, 1728, 288, 24, 126, 1440, 625, 24, 2, 3, 576⟩,
   ⟨23, 1, 49761, 27000, 1728, 288, 24, 126, 1440, 314, 26, 4, 3, 288⟩,
   ⟨24, 1, 49761, 27000, 1728, 288, 24, 126, 1440, 314, 26, 4, 3, 288⟩,
   ⟨25, 0, 50000, 54000, 3456, 576, 48, 252, 2880, 625, 24, 2, 3, 576⟩,
   ⟨26, 0, 50000, 54000, 3456, 576, 48, 252, 2880, 625, 24, 2, 3, 576⟩,
   ⟨27, 1, 49761, 54000, 3456, 576, 48, 252, 2880, 314, 26, 4, 3, 288⟩,
   ⟨28, 1, 49761, 54000, 3456, 576, 48, 252, 2880, 314, 26, 4, 3, 288⟩,
   ⟨29, 1, 50000, 54000, 1728, 288, 24, 128, 1440, 625, 49, 5, 5, 576⟩,
   ⟨30, 1, 50000, 54000, 1728, 288, 24, 128, 1440, 625, 49, 5, 5, 576⟩,
   ⟨31, 1, 50000, 148500, 2640, 720, 528, 44, 1920, 1125, 45, 4, 5, 1080⟩,
   ⟨32, 1, 24000, 74250, 2750, 830, 638, 44, 1920, 1125, 45, 4, 5, 1080⟩,
   ⟨33, 1, 25000, 74250, 2640, 720, 528, 44, 1920, 1125, 45, 4, 5, 1080⟩,
   ⟨34, 1, 30000, 74250, 2200, 280, 88, 44, 1920, 1125, 45, 4, 5, 1080⟩,
   ⟨35, 1, 59940, 108000, 3432, 552, 64, 248, 2880, 525, 45, 9, 6, 480⟩,
   ⟨36, 1, 59940, 108000, 3432, 552, 64, 248, 2880, 525, 45, 9, 6, 480⟩,
   ⟨37, 1, 50000, 108000, 3456, 576, 48, 256, 2880, 625, 49, 5, 5, 576⟩,
   ⟨38, 1, 50000, 108000, 3456, 576, 48, 256, 2880, 625, 49, 5, 5, 576⟩,
   ⟨39, 0, 50000, 72000, 2304, 384, 32, 168, 1920, 1250, 85, 23, 5, 1080⟩,
   ⟨40, 0, 100000, 148500, 2640, 720, 528, 44, 1920, 1125, 22, 2, 5, 1080⟩,
   ⟨41, 1, 100000, 148500, 1980, 700, 440, 40, 1280, 750, 30, 5, 5, 720⟩,
   ⟨42, 1, 100000, 54000, 864, 144, 12, 64, 720, 625, 49, 5, 5, 576⟩,
   ⟨43, 1, 100000, 54000, 864, 144, 12, 64, 720, 625, 49, 5, 5, 576⟩,
   ⟨44, 0, 100000, 54000, 1728, 288, 24, 126, 1440, 625, 24, 2, 3, 576⟩,
   ⟨45, 0, 100000, 54000, 1728, 288, 24, 126, 1440, 625, 24, 2, 3, 576⟩,
   ⟨46, 0, 120000, 148500, 2200, 280, 88, 44, 1920, 1125, 22, 2, 5, 1080⟩,
   ⟨47, 1, 120000, 148500, 1650, 370, 110, 40, 1280, 750, 30, 5, 5, 720⟩,
   ⟨48, 1, 119880, 54000, 858, 138, 16, 62, 720, 525, 45, 9, 6, 480⟩,
   ⟨49, 1, 119880, 54000, 858, 138, 16, 62, 720, 525, 45, 9, 6, 480⟩,
   ⟨50, 0, 119880, 54000, 1716, 276, 38, 124, 1440, 525, 22, 4, 3, 480⟩,
   ⟨51, 0, 119880, 54000, 1716, 276, 38, 124, 1440, 525, 22, 4, 3, 480⟩,
   ⟨52, 1, 200000, 108000, 864, 144, 12, 64, 720, 625, 49, 5, 5, 576⟩,
   ⟨53, 1, 200000, 108000, 864, 144, 12, 64, 720, 625, 49, 5, 5, 576⟩,
   ⟨54, 0, 200000, 108000, 1728, 288, 24, 126, 1440, 625, 24, 2, 3, 576⟩,
   ⟨55, 0, 200000, 108000, 1728, 288, 24, 126, 1440, 625, 24, 2, 3, 576⟩,
   ⟨56, 1, 239760, 108000, 858, 138, 16, 62, 720, 525, 45, 9, 6, 480⟩,
   ⟨57, 1, 239760, 108000, 858, 138, 16, 62, 720, 525, 45, 9, 6, 480⟩,
   ⟨58, 0, 239760, 108000, 1716, 276, 38, 124, 1440, 525, 22, 4, 3, 480⟩,
   ⟨59, 0, 239760, 108000, 1716, 276, 38, 124, 1440, 525, 22, 4, 3, 480⟩,
   ⟨60, 1, 24000, 59400, 3300, 2020, 1760, 40, 1280, 750, 30, 5, 5, 720⟩,
   ⟨61, 1, 25000, 74250, 3960, 2680, 2420, 40, 1280, 750, 30, 5, 5, 720⟩,
   ⟨62, 1, 30000, 74250, 3300, 2020, 1760, 40, 1280, 750, 30, 5, 5, 720⟩,
   ⟨63, 1, 120000, 297000, 2200, 280, 88, 44, 1920, 1125, 45, 4, 5, 1080⟩,
   ⟨64, 1, 100000, 297000, 2640, 720, 528, 44, 1920, 1125, 45, 4, 5, 1080⟩,
   ⟨65, 1, 24000, 59400, 3300, 2020, 1760, 40, 1280, 750, 30, 5, 5, 720⟩,
   ⟨66, 1, 25000, 74250, 3960, 2680, 2420, 40, 1280, 750, 30, 5, 5, 720⟩,
   ⟨67, 1, 30000, 74250, 3300, 2020, 1760, 40, 1280, 750, 30, 5, 5, 720⟩,
   ⟨68, 1, 50000, 74250, 1980, 700, 440, 40, 1280, 750, 30, 5, 5, 720⟩,
   ⟨69, 1, 60000, 74250, 1650, 370, 110, 40, 1280, 750, 30, 5, 5, 720⟩,
   ⟨70, 1, 100000, 148500, 1980, 700, 440, 40, 1280, 750, 30, 5, 5, 720⟩,
   ⟨71, 1, 120000, 148500, 1650, 370, 110, 40, 1280, 750, 30, 5, 5, 720⟩,
   ⟨72, 1, 24000, 74250, 2750, 830, 638, 44, 1920, 1125, 45, 4, 5, 1080⟩,
   ⟨73, 1, 25000, 74250, 2640, 720, 528, 44, 1920, 1125, 45, 4, 5, 1080⟩,
   ⟨74, 1, 30000, 74250, 2200, 280, 88, 44, 1920, 1125, 45, 4, 5, 1080⟩,
   ⟨75, 1, 50000, 148500, 2640, 720, 528, 44, 1920, 1125, 45, 4, 5, 1080⟩,
   ⟨76, 1, 60000, 148500, 2200, 280, 88, 44, 1920, 1125, 45, 4, 5, 1080⟩,
   ⟨77, 1, 100000, 297000, 2640, 720, 528, 44, 1920, 1125, 45, 4, 5, 1080⟩,
   ⟨78, 1, 120000, 297000, 2200, 280, 88, 44, 1920, 1125, 45, 4, 5, 1080⟩,
   ⟨79, 1, 24000, 59400, 3300, 1620, 1360, 40, 1680, 750, 30, 5, 5, 720⟩,
   ⟨80, 1, 25000, 59400, 3168, 1488, 1228, 40, 1680, 750, 30, 5, 5, 720⟩,
   ⟨81, 1, 30000, 59400, 2640, 960, 700, 40, 1680, 750, 30, 5, 5, 720⟩,
   ⟨82, 1, 50000, 82500, 2200, 520, 260, 40, 1680, 750, 30, 5, 5, 720⟩,
   ⟨83, 1, 60000, 99000, 2200, 520, 260, 40, 1680, 750, 30, 5, 5, 720⟩,
   ⟨84, 1, 100000, 165000, 2000, 320, 60, 40, 1680, 825, 105, 5, 5, 720⟩,
   ⟨85, 1, 120000, 198000, 2000, 320, 60, 40, 1680, 825, 105, 5, 5, 720⟩,
   ⟨86, 1, 24000, 99000, 3750, 1190, 998, 44, 2560, 1100, 20, 4, 5, 1080⟩,
   ⟨87, 1, 25000, 90000, 3200, 640, 448, 44, 2560, 1125, 45, 4, 5, 1080⟩,
   ⟨88, 1, 30000, 118800, 3520, 960, 768, 44, 2560, 1125, 45, 4, 5, 1080⟩,
   ⟨89, 1, 50000, 185625, 3300, 740, 548, 44, 2560, 1125, 45, 4, 5, 1080⟩,
   ⟨90, 1, 60000, 198000, 3000, 440, 248, 44, 2560, 1100, 20, 4, 5, 1080⟩,
   ⟨91, 1, 100000, 371250, 2970, 410, 218, 44, 2560, 1250, 170, 4, 5, 1080⟩,
   ⟨92, 1, 120000, 495000, 3300, 740, 548, 44, 2560, 1250, 170, 4, 5, 1080⟩,
   ⟨93, 1, 24000, 297000, 5500, 1660, 1276, 88, 3840, 2250, 90, 8, 10, 2160⟩,
   ⟨94, 1, 25000, 297000, 5280, 1440, 1056, 88, 3840, 2250, 90, 8, 10, 2160⟩,
   ⟨95, 1, 30000, 297000, 4400, 560, 176, 88, 3840, 2250, 90, 8, 10, 2160⟩,
   ⟨96, 1, 50000, 594000, 5280, 1440, 1056, 88, 3840, 2250, 90, 8, 10, 2160⟩,
   ⟨97, 1, 60000, 594000, 4400, 560, 176, 88, 3840, 2250, 90, 8, 10, 2160⟩,
   ⟨98, 1, 24000, 297000, 5500, 1404, 1020, 88, 4096, 2250, 90, 8, 10, 2160⟩,
   ⟨99, 1, 25000, 297000, 5280, 1184, 968, 88, 4096, 2250, 90, 8, 10, 2160⟩,
   ⟨100, 1, 30000, 297000, 4400, 304, 88, 88, 4096, 2250, 90, 8, 10, 2160⟩,
   ⟨101, 1, 50000, 594000, 5280, 1184, 968, 88, 4096, 2250, 90, 8, 10, 2160⟩,
   ⟨102, 1, 60000, 594000, 4400, 304, 88, 88, 4096, 2250, 90, 8, 10, 2160⟩,
   ⟨103, 1, 24000, 297000, 5500, 1660, 1276, 88, 3840, 2250, 90, 8, 10, 2160⟩,
   ⟨104, 1, 25000, 297000, 5280, 1440, 1056, 88, 3840, 2250, 90, 8, 10, 2160⟩,
   ⟨105, 1, 30000, 297000, 4400, 560, 176, 88, 3840, 2250, 90, 8, 10, 2160⟩,
   ⟨106, 1, 50000, 594000, 5280, 1440, 1056, 88, 3840, 2250, 90, 8, 10, 2160⟩,
   ⟨107, 1, 60000, 594000, 4400, 560, 176, 88, 3840, 2250, 90, 8, 10, 2160⟩,
   ⟨108, 1, 48000, 90000, 2500, 1220, 960, 40, 1280, 750, 30, 5, 5, 720⟩,
   ⟨109, 1, 48000, 90000, 2500, 1220, 960, 40, 1280, 750, 30, 5, 5, 720⟩,
   ⟨110, 1, 48000, 99000, 2750, 1070, 810, 40, 1680, 750, 30, 5, 5, 720⟩,
   ⟨111, 1, 48000, 148500, 2750, 830, 638, 44, 1920, 1125, 45, 4, 5, 1080⟩,
   ⟨112, 1, 48000, 148500, 2750, 830, 638, 44, 1920, 1125, 45, 4, 5, 1080⟩,
   ⟨113, 1, 48000, 198000, 3750, 1190, 998, 44, 2560, 1100, 20, 4, 5, 1080⟩,
   ⟨114, 1, 48000, 594000, 5500, 1660, 1276, 88, 3840, 2250, 90, 8, 10, 2160⟩,
   ⟨115, 1, 48000, 594000, 5500, 1404, 1020, 88, 4096, 2250, 90, 8, 10, 2160⟩,
   ⟨116, 1, 48000, 594000, 5500, 1660, 1276, 88, 3840, 2250, 90, 8, 10, 2160⟩,
   ⟨117, 1, 100000, 1188000, 5280, 1440, 1056, 88, 3840, 2250, 90, 8, 10, 2160⟩,
   ⟨118, 1, 120000, 1188000, 4400, 560, 176, 88, 3840, 2250, 90, 8, 10, 2160⟩,
   ⟨119, 1, 100000, 1188000, 5280, 1440, 1056, 88, 3840, 2250, 90, 8, 10, 2160⟩,
   ⟨120, 1, 120000, 1188000, 4400, 560, 176, 88, 3840, 2250, 90, 8, 10, 2160⟩,
   ⟨121, 1, 24000, 396000, 7500, 2380, 1996, 88, 5120, 2200, 40, 8, 10, 2160⟩,
   ⟨122, 1, 25000, 396000, 7200, 2080, 1696, 88, 5120, 2200, 40, 8, 10, 2160⟩,
   ⟨123, 1, 30000, 396000, 6000, 880, 664, 88, 5120, 2200, 40, 8, 10, 2160⟩,
   ⟨124, 1, 48000, 742500, 6250, 1130, 746, 88, 5120, 2475, 315, 8, 10, 2160⟩,
   ⟨125, 1, 50000, 742500, 6600, 1480, 1096, 88, 5120, 2250, 90, 8, 10, 2160⟩,
   ⟨126, 1, 60000, 742500, 5500, 380, 164, 88, 5120, 2250, 90, 8, 10, 2160⟩,
   ⟨127, 1, 100000, 1485000, 6600, 1480, 1096, 88, 5120, 2250, 90, 8, 10, 2160⟩]

/-- The modes 193 to 219. -/
def edidCeaModes193 : List HdmiTiming :=
  [⟨193, 1, 120000, 1485000, 5500, 380, 164, 88, 5120, 2250, 90, 8, 10, 2160⟩,
   ⟨194, 1, 24000, 1188000, 11000, 3320, 2552, 176, 7680, 4500, 180, 16, 20, 4320⟩,
   ⟨195, 1, 25000, 1188000, 10800, 3120, 2352, 176, 7680, 4400, 80, 16, 20, 4320⟩,
   ⟨196, 1, 30000, 1188000, 9000, 1320, 552, 176, 7680, 4400, 80, 16, 20, 4320⟩,
   ⟨197, 1, 48000, 2376000, 11000, 3320, 2552, 176, 7680, 4500, 180, 16, 20, 4320⟩,
   ⟨198, 1, 50000, 2376000, 10800, 3120, 2352, 176, 7680, 4400, 80, 16, 20, 4320⟩,
   ⟨199, 1, 60000, 2376000, 9000, 1320, 552, 176, 7680, 4400, 80, 16, 20, 4320⟩,
   ⟨200, 1, 100000, 4752000, 10560, 2880, 2112, 176, 7680, 4500, 180, 16, 20, 4320⟩,
   ⟨201, 1, 120000, 4752000, 8800, 1120, 352, 176, 7680, 4500, 180, 16, 20, 4320⟩,
   ⟨202, 1, 24000, 1188000, 11000, 3320, 2552, 176, 7680, 4500, 180, 16, 20, 4320⟩,
   ⟨203, 1, 25000, 1188000, 10800, 3120, 2352, 176, 7680, 4400, 80, 16, 20, 4320⟩,
   ⟨204, 1, 30000, 1188000, 9000, 1320, 552, 176, 7680, 4400, 80, 16, 20, 4320⟩,
   ⟨205, 1, 48000, 2376000, 11000, 3320, 2552, 176, 7680, 4500, 180, 16, 20, 4320⟩,
   ⟨206, 1, 50000, 2376000, 10800, 3120, 2352, 176, 7680, 4400, 80, 16, 20, 4320⟩,
   ⟨207, 1, 60000, 2376000, 9000, 1320, 552, 176, 7680, 4400, 80, 16, 20, 4320⟩,
   ⟨208, 1, 100000, 4752000, 10560, 2880, 2112, 176, 7680, 4500, 180, 16, 20, 4320⟩,
   ⟨209, 1, 120000, 4752000, 8800, 1120, 352, 176, 7680, 4500, 180, 16, 20, 4320⟩,
   ⟨210, 1, 24000, 1485000, 12500, 2260, 1492, 176, 10240, 4950, 630, 16, 20, 4320⟩,
   ⟨211, 1, 25000, 1485000, 13500, 3260, 2492, 176, 10240, 4400, 80, 16, 20, 4320⟩,
   ⟨212, 1, 30000, 1485000, 11000, 760, 288, 176, 10240, 4500, 180, 16, 20, 4320⟩,
   ⟨213, 1, 48000, 2970000, 12500, 2260, 1492, 176, 10240, 4950, 630, 16, 20, 4320⟩,
   ⟨214, 1, 50000, 2970000, 13500, 3260, 2492, 176, 10240, 4400, 80, 16, 20, 4320⟩,
   ⟨215, 1, 60000, 2970000, 11000, 760, 288, 176, 10240, 4500, 180, 16, 20, 4320⟩,
   ⟨216, 1, 100000, 5940000, 13200, 2960, 2192, 176, 10240, 4500, 180, 16, 20, 4320⟩,
   ⟨217, 1, 120000, 5940000, 11000, 760, 288, 176, 10240, 4500, 180, 16, 20, 4320⟩,
   ⟨218, 1, 100000, 1188000, 5280, 1184, 800, 88, 4096, 2250, 90, 8, 10, 2160⟩,
   ⟨219, 1, 120000, 1188000, 4400, 304, 88, 88, 4096, 2250, 90, 8, 10, 2160⟩]

/-- The fixed modes of the Odroid boards. -/
def edidOdroid : List HdmiTiming :=
  [⟨250, 1, 59855, 111750, 2496, 576, 96, 192, 1920, 748, 28, 3, 10, 720⟩,
   ⟨251, 1, 60000, 33900, 1056, 256, 44, 88, 800, 535, 55, 3, 6, 480⟩,
   ⟨252, 1, 59993, 51200, 1344, 320, 8, 144, 1024, 635, 35, 3, 6, 600⟩]

/-- `HDMI_ODROID_CUSTOM_VIDEO`: the mode of the Odroid boards that the user sets. -/
def odroidCustomVideo : ℕ := 253

def vesaModes : List HdmiTiming :=
  [⟨vesaOffset + 0, 1, 59940, 25175, 800, 160, 16, 96, 640, 525, 45, 10, 2, 480⟩,
   ⟨vesaOffset + 1, 1, 60000, 29760, 992, 192, 24, 72, 800, 500, 20, 3, 7, 480⟩,
   ⟨vesaOffset + 2, 1, 60317, 66666, 1056, 256, 40, 128, 800, 628, 28, 1, 4, 600⟩,
   ⟨vesaOffset + 3, 1, 59960, 30240, 948, 96, 40, 16, 852, 532, 52, 10, 2, 480⟩,
   ⟨vesaOffset + 4, 1, 59950, 30240, 950, 96, 40, 16, 854, 531, 51, 10, 2, 480⟩,
   ⟨vesaOffset + 5, 1, 60000, 51448, 1344, 320, 24, 136, 1024, 638, 38, 3, 6, 600⟩,
   ⟨vesaOffset + 6, 1, 60004, 79500, 1344, 320, 24, 136, 1024, 806, 38, 3, 6, 768⟩,
   ⟨vesaOffset + 7, 1, 75000, 108000, 1600, 448, 64, 128, 1152, 900, 36, 1, 3, 864⟩,
   ⟨vesaOffset + 8, 1, 59870, 79500, 1664, 384, 64, 128, 1280, 798, 30, 3, 7, 768⟩,
   ⟨vesaOffset + 9, 1, 59910, 83500, 1440, 160, 48, 32, 1280, 823, 23, 3, 6, 800⟩,
   ⟨vesaOffset + 10, 1, 60000, 108000, 1800, 520, 96, 112, 1280, 1000, 40, 1, 3, 960⟩,
   ⟨vesaOffset + 11, 1, 60020, 108000, 1688, 408, 48, 112, 1280, 1066, 42, 1, 3, 1024⟩,
   ⟨vesaOffset + 12, 1, 60015, 85500, 1792, 432, 64, 112, 1360, 795, 27, 3, 6, 768⟩,
   ⟨vesaOffset + 13, 1, 59790, 85500, 1792, 426, 70, 143, 1366, 798, 30, 3, 3, 768⟩,
   ⟨vesaOffset + 14, 1, 59978, 121750, 1862, 464, 88, 144, 1400, 1089, 39, 3, 4, 1050⟩,
   ⟨vesaOffset + 15, 1, 59887, 106500, 1904, 464, 80, 152, 1440, 934, 34, 3, 6, 900⟩,
   ⟨vesaOffset + 16, 1, 59999, 244850, 1572, 132, 64, 4, 1440, 2596, 36, 16, 4, 2560⟩,
   ⟨vesaOffset + 17, 1, 60000, 108000, 1800, 200, 24, 80, 1600, 1000, 100, 1, 3, 900⟩,
   ⟨vesaOffset + 18, 1, 60000, 162000, 2160, 560, 64, 192, 1600, 1250, 50, 1, 3, 1200⟩,
   ⟨vesaOffset + 19, 1, 59954, 146250, 2240, 560, 104, 176, 1680, 1089, 39, 3, 6, 1050⟩,
   ⟨vesaOffset + 20, 1, 59885, 193250, 2592, 672, 136, 200, 1920, 1245, 45, 3, 6, 1200⟩,
   ⟨vesaOffset + 21, 1, 24000, 74250, 2750, 702, 148, 44, 2048, 1125, 45, 4, 5, 1080⟩,
   ⟨vesaOffset + 22, 1, 90000, 268550, 2462, 302, 190, 32, 2160, 1212, 12, 6, 3, 1200⟩,
   ⟨vesaOffset + 23, 1, 59987, 348500, 3504, 944, 192, 280, 2560, 1658, 58, 3, 6, 1600⟩,
   ⟨vesaOffset + 24, 1, 59973, 319750, 3600, 160, 48, 32, 3440, 1481, 41, 3, 10, 1440⟩,
   ⟨vesaOffset + 25, 1, 90106, 280000, 2482, 82, 20, 30, 2400, 1252, 52, 17, 5, 1200⟩,
   ⟨vesaOffset + 26, 1, 60000, 297000, 4400, 560, 176, 88, 3840, 1125, 45, 4, 5, 1080⟩]

/-- `CONFIG_ARCH_MESON_ODROID_COMMON`: whether the driver is built for an Odroid board,
    and then what the custom mode was set to. -/
abbrev Board := Option HdmiTiming

/-- The table of the Odroid boards. -/
def Board.modes : Board → List HdmiTiming
  | none => []
  | some custom => edidOdroid ++ [{ custom with vic := odroidCustomVideo }]

/-- All modes, in the order of `hdmitx_mode_index_to_hdmi_timing`. -/
def Board.timings (board : Board) : List HdmiTiming :=
  edidCeaModes0 ++ edidCeaModes193 ++ board.modes ++ vesaModes

/-- `INVALID_HDMI_TIMING`. -/
def invalidHdmiTiming : HdmiTiming := ⟨0, 0, 0, 0, 0, 0, 0, 0, 0, 0, 0, 0, 0, 0⟩

/-! ## The searches -/

/-- `hdmitx_mode_vic_to_hdmi_timing`: the tables start with these modes. -/
def hdmitxModeVicToHdmiTiming (board : Board) (vic : ℕ) : Option HdmiTiming :=
  if vic ≤ 127 then edidCeaModes0[vic]?
  else if 193 ≤ vic ∧ vic ≤ 219 then edidCeaModes193[vic - 193]?
  else if board.isSome ∧ 250 ≤ vic ∧ vic ≤ odroidCustomVideo then board.modes[vic - 250]?
  else if vesaOffset ≤ vic ∧ vic ≤ vesaOffset + 26 then vesaModes[vic - vesaOffset]?
  else none

/-- `hdmitx_mode_validate_y420_vic`. -/
def hdmitxModeValidateY420Vic (board : Board) (vic : ℕ) : Bool :=
  match hdmitxModeVicToHdmiTiming board vic with
  | none => false
  | some timing =>
    (2160 ≤ timing.vActive && 30000 < timing.vFreq) || 4320 ≤ timing.vActive

/-- `struct dtd`; its borders are never set. -/
structure Dtd where
  pixelClock : ℕ := 0
  hActive : ℕ := 0
  hBlank : ℕ := 0
  vActive : ℕ := 0
  vBlank : ℕ := 0
  hSyncOffset : ℕ := 0
  hSync : ℕ := 0
  vSyncOffset : ℕ := 0
  vSync : ℕ := 0
  hImageSize : ℕ := 0
  vImageSize : ℕ := 0
  flags : ℕ := 0
  vic : ℕ := 0
deriving DecidableEq

/-- The test of `hdmitx_mode_match_dtd_timing`. -/
def HdmiTiming.matchesDtd (timing : HdmiTiming) (t : Dtd) : Bool :=
  ((timing.pixelFreq / 10 : ℕ) - (t.pixelClock : ℤ)).natAbs ≤ (t.pixelClock + 1000) / 1000 &&
    t.hActive = timing.hActive && t.hBlank = timing.hBlank &&
    t.vActive = timing.vActive && t.vBlank = timing.vBlank &&
    t.hSyncOffset = timing.hFront && t.hSync = timing.hSync &&
    t.vSyncOffset = timing.vFront && t.vSync = timing.vSync

/-- `hdmitx_mode_match_dtd_timing`, which doubles the lines of an interlaced mode in the
    descriptor it is given. -/
def hdmitxModeMatchDtdTiming (board : Board) (t : Dtd) : Dtd × HdmiTiming :=
  let t := if t.flags >>> 7 = 1 then { t with vActive := t.vActive * 2 } else t
  (t, (board.timings.find? (·.matchesDtd t)).getD invalidHdmiTiming)

/-- `struct vesa_standard_timing`. -/
structure VesaStandardTiming where
  hactive : ℕ := 0
  vactive : ℕ := 0
  hblank : ℕ := 0
  vblank : ℕ := 0
  vsync : ℕ := 0
  tmdsClk : ℕ := 0

/-- `DIV_ROUND_CLOSEST_ULL`. -/
def divRoundClosest (x d : ℕ) : ℕ := (x + d / 2) / d

/-- `hdmi_timing_vrefresh`. -/
def HdmiTiming.vrefresh (t : HdmiTiming) : ℕ :=
  if t.hTotal = 0 ∨ t.vTotal = 0 then 0
  else
    divRoundClosest ((if t.piMode = 0 then t.pixelFreq * 2 else t.pixelFreq) * 1000000)
      (t.hTotal * t.vTotal)

/-- The test of `hdmitx_mode_match_vesa_timing`. -/
def HdmiTiming.matchesVesa (timing : HdmiTiming) (t : VesaStandardTiming) : Bool :=
  t.hactive = timing.hActive && t.vactive = timing.vActive &&
    ((t.vsync ≠ 0 && t.vsync = divRoundClosest timing.vrefresh 1000) ||
      (t.hblank ≠ 0 && t.hblank = timing.hBlank && t.vblank ≠ 0 && t.vblank = timing.vBlank &&
        t.tmdsClk ≠ 0 && t.tmdsClk = timing.pixelFreq / 10))

/-- `hdmitx_mode_match_vesa_timing`. -/
def hdmitxModeMatchVesaTiming (t : VesaStandardTiming) : HdmiTiming :=
  (vesaModes.find? (·.matchesVesa t)).getD invalidHdmiTiming

/-! ## The numbers of the modes -/

/-- The modes that are not VESA modes have a VIC of CEA-861, and there is one after it. -/
theorem vic_lt_of_mem_timings {board : Board} {timing : HdmiTiming}
    (h : timing ∈ board.timings) : timing.vic < 255 ∨ vesaOffset ≤ timing.vic := by
  have hcea : ∀ timing ∈ edidCeaModes0, timing.vic < 255 := by decide +kernel
  have hcea' : ∀ timing ∈ edidCeaModes193, timing.vic < 255 := by decide +kernel
  have hodroid : ∀ timing ∈ edidOdroid, timing.vic < 255 := by decide +kernel
  have hvesa : ∀ timing ∈ vesaModes, vesaOffset ≤ timing.vic := by decide +kernel
  rcases mem_append.1 h with h | h
  · rcases mem_append.1 h with h | h
    · rcases mem_append.1 h with h | h
      · exact .inl (hcea timing h)
      · exact .inl (hcea' timing h)
    cases board with
    | none => cases h
    | some custom =>
      rcases mem_append.1 h with h | h
      · exact .inl (hodroid timing h)
      · have hvic : timing.vic = odroidCustomVideo := by rw [mem_singleton.1 h]
        exact .inl (by rw [hvic]; decide)
  · exact .inr (hvesa timing h)

theorem snd_hdmitxModeMatchDtdTiming_mem (board : Board) (t : Dtd) :
    (hdmitxModeMatchDtdTiming board t).2 ∈ board.timings := by
  have hfind (t : Dtd) :
      (board.timings.find? (·.matchesDtd t)).getD invalidHdmiTiming ∈ board.timings := by
    cases h : board.timings.find? (·.matchesDtd t) with
    | none =>
      have hinvalid : invalidHdmiTiming ∈ edidCeaModes0 := by decide
      rw [Option.getD_none, Board.timings, append_assoc, append_assoc]
      exact mem_append_left _ hinvalid
    | some timing => exact mem_of_find?_eq_some h
  exact hfind _

end CommonDrivers.Media.Hdmitx

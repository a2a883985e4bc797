/-!
# What the program says about itself
-/

namespace Chip8

/-- The name that the program shows. -/
def appName : String := "OctaChip Emulator"

/-- The version that the program shows. -/
def appVersion : String := "1.0.0"

/-- The start of the banner and of crash reports. -/
def introduction : String := appName ++ " V" ++ appVersion ++ " -- "

/-- The rest of the banner. -/
def legalNotice : String :=
  "Copyright (C) 2022 Gregory Maynard-Hoare, licensed under GNU Affero General Public License v3.0"

end Chip8

/-
  The shape of a step in the output: a unit step with everything above the output's range taken out.

  A step is spread over sixteen output samples.  The table holds its first half for 33 positions of the
  step between two samples, in units of 2^-15; the second half is the first half of the position
  mirrored, read backwards.  Each position has sixteen taps (`length_kernelTaps`).
-/

namespace Famicom.Resampler

/-- The first half of a step at each of 33 positions between two samples. -/
def kernel : Vector (Vector Int32 8) 33 := #v[
  #v[43, -115, 350, -488, 1136, -914, 5861, 21022],
  #v[44, -118, 348, -473, 1076, -799, 5274, 21001],
  #v[45, -121, 344, -454, 1011, -677, 4706, 20936],
  #v[46, -122, 336, -431, 942, -549, 4156, 20829],
  #v[47, -123, 327, -404, 868, -418, 3629, 20679],
  #v[47, -122, 316, -375, 792, -285, 3124, 20488],
  #v[47, -120, 303, -344, 714, -151, 2644, 20256],
  #v[46, -117, 289, -310, 634, -17, 2188, 19985],
  #v[46, -114, 273, -275, 553, 117, 1758, 19675],
  #v[44, -108, 255, -237, 471, 247, 1356, 19327],
  #v[43, -103, 237, -199, 390, 373, 981, 18944],
  #v[42, -98, 218, -160, 310, 495, 633, 18527],
  #v[40, -91, 198, -121, 231, 611, 314, 18078],
  #v[38, -84, 178, -81, 153, 722, 22, 17599],
  #v[36, -76, 157, -43, 80, 824, -241, 17092],
  #v[34, -68, 135, -3, 8, 919, -476, 16558],
  #v[32, -61, 115, 34, -60, 1006, -683, 16001],
  #v[29, -52, 94, 70, -123, 1083, -862, 15422],
  #v[27, -44, 73, 106, -184, 1152, -1015, 14824],
  #v[25, -36, 53, 139, -239, 1211, -1142, 14210],
  #v[22, -27, 34, 170, -290, 1261, -1244, 13582],
  #v[20, -20, 16, 199, -335, 1301, -1322, 12942],
  #v[18, -12, -3, 226, -375, 1331, -1376, 12293],
  #v[15, -4, -19, 250, -410, 1351, -1408, 11638],
  #v[13, 3, -35, 272, -439, 1361, -1419, 10979],
  #v[11, 9, -49, 292, -464, 1362, -1410, 10319],
  #v[9, 16, -63, 309, -483, 1354, -1383, 9660],
  #v[7, 22, -75, 322, -496, 1337, -1339, 9005],
  #v[6, 26, -85, 333, -504, 1312, -1280, 8355],
  #v[4, 31, -94, 341, -507, 1278, -1205, 7713],
  #v[3, 35, -102, 347, -506, 1238, -1119, 7082],
  #v[1, 40, -110, 350, -499, 1190, -1021, 6464],
  #v[0, 43, -115, 350, -488, 1136, -914, 5861]
]

/-- The sixteen taps at position `phase`: its first half, and the mirrored position's backwards. -/
def kernelTaps (phase : Nat) (h : phase ≤ 32) : List Int32 :=
  kernel[phase].toList ++ kernel[32 - phase].toList.reverse

theorem length_kernelTaps (phase : Nat) (h : phase ≤ 32) : (kernelTaps phase h).length = 16 := by
  simp [kernelTaps]

end Famicom.Resampler

import NdsDevkit.Text.Unichar

namespace NdsDevkit.Text

def unicharDecompositionDataLatin : List (Option (List Unichar)) := [
  some [0x0020], none, none, none, none, none, none, none, some [0x0020, 0x0308], none,
  some [0x0061], none, none, none, none, some [0x0020, 0x0304], none, none, some [0x0032],
  some [0x0033], some [0x0020, 0x0301], some [0x03bc], none, none, some [0x0020, 0x0327],
  some [0x0031], some [0x006f], none, some [0x0031, 0x2044, 0x0034],
  some [0x0031, 0x2044, 0x0032], some [0x0033, 0x2044, 0x0034], none, some [0x0041, 0x0300],
  some [0x0041, 0x0301], some [0x0041, 0x0302], some [0x0041, 0x0303], some [0x0041, 0x0308],
  some [0x0041, 0x030a], none, some [0x0043, 0x0327], some [0x0045, 0x0300],
  some [0x0045, 0x0301], some [0x0045, 0x0302], some [0x0045, 0x0308], some [0x0049, 0x0300],
  some [0x0049, 0x0301], some [0x0049, 0x0302], some [0x0049, 0x0308], none,
  some [0x004e, 0x0303], some [0x004f, 0x0300], some [0x004f, 0x0301], some [0x004f, 0x0302],
  some [0x004f, 0x0303], some [0x004f, 0x0308], none, none, some [0x0055, 0x0300],
  some [0x0055, 0x0301], some [0x0055, 0x0302], some [0x0055, 0x0308], some [0x0059, 0x0301],
  none, none, some [0x0061, 0x0300], some [0x0061, 0x0301], some [0x0061, 0x0302],
  some [0x0061, 0x0303], some [0x0061, 0x0308], some [0x0061, 0x030a], none,
  some [0x0063, 0x0327], some [0x0065, 0x0300], some [0x0065, 0x0301], some [0x0065, 0x0302],
  some [0x0065, 0x0308], some [0x0069, 0x0300], some [0x0069, 0x0301], some [0x0069, 0x0302],
  some [0x0069, 0x0308], none, some [0x006e, 0x0303], some [0x006f, 0x0300],
  some [0x006f, 0x0301], some [0x006f, 0x0302], some [0x006f, 0x0303], some [0x006f, 0x0308],
  none, none, some [0x0075, 0x0300], some [0x0075, 0x0301], some [0x0075, 0x0302],
  some [0x0075, 0x0308], some [0x0079, 0x0301], none, some [0x0079, 0x0308],
  some [0x0041, 0x0304], some [0x0061, 0x0304], some [0x0041, 0x0306], some [0x0061, 0x0306],
  some [0x0041, 0x0328], some [0x0061, 0x0328], some [0x0043, 0x0301], some [0x0063, 0x0301],
  some [0x0043, 0x0302], some [0x0063, 0x0302], some [0x0043, 0x0307], some [0x0063, 0x0307],
  some [0x0043, 0x030c], some [0x0063, 0x030c], some [0x0044, 0x030c], some [0x0064, 0x030c],
  none, none, some [0x0045, 0x0304], some [0x0065, 0x0304], some [0x0045, 0x0306],
  some [0x0065, 0x0306], some [0x0045, 0x0307], some [0x0065, 0x0307], some [0x0045, 0x0328],
  some [0x0065, 0x0328], some [0x0045, 0x030c], some [0x0065, 0x030c], some [0x0047, 0x0302],
  some [0x0067, 0x0302], some [0x0047, 0x0306], some [0x0067, 0x0306], some [0x0047, 0x0307],
  some [0x0067, 0x0307], some [0x0047, 0x0327], some [0x0067, 0x0327], some [0x0048, 0x0302],
  some [0x0068, 0x0302], none, none, some [0x0049, 0x0303], some [0x0069, 0x0303],
  some [0x0049, 0x0304], some [0x0069, 0x0304], some [0x0049, 0x0306], some [0x0069, 0x0306],
  some [0x0049, 0x0328], some [0x0069, 0x0328], some [0x0049, 0x0307], none,
  some [0x0049, 0x004a], some [0x0069, 0x006a], some [0x004a, 0x0302], some [0x006a, 0x0302],
  some [0x004b, 0x0327], some [0x006b, 0x0327], none, some [0x004c, 0x0301],
  some [0x006c, 0x0301], some [0x004c, 0x0327], some [0x006c, 0x0327], some [0x004c, 0x030c],
  some [0x006c, 0x030c], some [0x004c, 0x00b7], some [0x006c, 0x00b7], none, none,
  some [0x004e, 0x0301], some [0x006e, 0x0301], some [0x004e, 0x0327], some [0x006e, 0x0327],
  some [0x004e, 0x030c], some [0x006e, 0x030c], some [0x02bc, 0x006e], none, none,
  some [0x004f, 0x0304], some [0x006f, 0x0304], some [0x004f, 0x0306], some [0x006f, 0x0306],
  some [0x004f, 0x030b], some [0x006f, 0x030b], none, none, some [0x0052, 0x0301],
  some [0x0072, 0x0301], some [0x0052, 0x0327], some [0x0072, 0x0327], some [0x0052, 0x030c],
  some [0x0072, 0x030c], some [0x0053, 0x0301], some [0x0073, 0x0301], some [0x0053, 0x0302],
  some [0x0073, 0x0302], some [0x0053, 0x0327], some [0x0073, 0x0327], some [0x0053, 0x030c],
  some [0x0073, 0x030c], some [0x0054, 0x0327], some [0x0074, 0x0327], some [0x0054, 0x030c],
  some [0x0074, 0x030c], none, none, some [0x0055, 0x0303], some [0x0075, 0x0303],
  some [0x0055, 0x0304], some [0x0075, 0x0304], some [0x0055, 0x0306], some [0x0075, 0x0306],
  some [0x0055, 0x030a], some [0x0075, 0x030a], some [0x0055, 0x030b], some [0x0075, 0x030b],
  some [0x0055, 0x0328], some [0x0075, 0x0328], some [0x0057, 0x0302], some [0x0077, 0x0302],
  some [0x0059, 0x0302], some [0x0079, 0x0302], some [0x0059, 0x0308], some [0x005a, 0x0301],
  some [0x007a, 0x0301], some [0x005a, 0x0307], some [0x007a, 0x0307], some [0x005a, 0x030c],
  some [0x007a, 0x030c], some [0x0073], none, none, none, none, none, none, none, none, none,
  none, none, none, none, none, none, none, none, none, none, none, none, none, none, none, none,
  none, none, none, none, none, none, none, some [0x004f, 0x031b], some [0x006f, 0x031b], none,
  none, none, none, none, none, none, none, none, none, none, none, none, some [0x0055, 0x031b],
  some [0x0075, 0x031b], none, none, none, none, none, none, none, none, none, none, none, none,
  none, none, none, none, none, none, none, some [0x0044, 0x005a, 0x030c],
  some [0x0044, 0x007a, 0x030c], some [0x0064, 0x007a, 0x030c], some [0x004c, 0x004a],
  some [0x004c, 0x006a], some [0x006c, 0x006a], some [0x004e, 0x004a], some [0x004e, 0x006a],
  some [0x006e, 0x006a], some [0x0041, 0x030c], some [0x0061, 0x030c], some [0x0049, 0x030c],
  some [0x0069, 0x030c], some [0x004f, 0x030c], some [0x006f, 0x030c], some [0x0055, 0x030c],
  some [0x0075, 0x030c], some [0x0055, 0x0308, 0x0304], some [0x0075, 0x0308, 0x0304],
  some [0x0055, 0x0308, 0x0301], some [0x0075, 0x0308, 0x0301], some [0x0055, 0x0308, 0x030c],
  some [0x0075, 0x0308, 0x030c], some [0x0055, 0x0308, 0x0300], some [0x0075, 0x0308, 0x0300],
  none, some [0x0041, 0x0308, 0x0304], some [0x0061, 0x0308, 0x0304],
  some [0x0041, 0x0307, 0x0304], some [0x0061, 0x0307, 0x0304], some [0x00c6, 0x0304],
  some [0x00e6, 0x0304], none, none, some [0x0047, 0x030c], some [0x0067, 0x030c],
  some [0x004b, 0x030c], some [0x006b, 0x030c], some [0x004f, 0x0328], some [0x006f, 0x0328],
  some [0x004f, 0x0328, 0x0304], some [0x006f, 0x0328, 0x0304], some [0x01b7, 0x030c],
  some [0x0292, 0x030c], some [0x006a, 0x030c], some [0x0044, 0x005a], some [0x0044, 0x007a],
  some [0x0064, 0x007a], some [0x0047, 0x0301], some [0x0067, 0x0301], none, none,
  some [0x004e, 0x0300], some [0x006e, 0x0300], some [0x0041, 0x030a, 0x0301],
  some [0x0061, 0x030a, 0x0301], some [0x00c6, 0x0301], some [0x00e6, 0x0301],
  some [0x00d8, 0x0301], some [0x00f8, 0x0301], some [0x0041, 0x030f], some [0x0061, 0x030f],
  some [0x0041, 0x0311], some [0x0061, 0x0311], some [0x0045, 0x030f], some [0x0065, 0x030f],
  some [0x0045, 0x0311], some [0x0065, 0x0311], some [0x0049, 0x030f], some [0x0069, 0x030f],
  some [0x0049, 0x0311], some [0x0069, 0x0311], some [0x004f, 0x030f], some [0x006f, 0x030f],
  some [0x004f, 0x0311], some [0x006f, 0x0311], some [0x0052, 0x030f], some [0x0072, 0x030f],
  some [0x0052, 0x0311], some [0x0072, 0x0311], some [0x0055, 0x030f], some [0x0075, 0x030f],
  some [0x0055, 0x0311], some [0x0075, 0x0311], some [0x0053, 0x0326], some [0x0073, 0x0326],
  some [0x0054, 0x0326], some [0x0074, 0x0326], none, none, some [0x0048, 0x030c],
  some [0x0068, 0x030c], none, none, none, none, none, none, some [0x0041, 0x0307],
  some [0x0061, 0x0307], some [0x0045, 0x0327], some [0x0065, 0x0327],
  some [0x004f, 0x0308, 0x0304], some [0x006f, 0x0308, 0x0304], some [0x004f, 0x0303, 0x0304],
  some [0x006f, 0x0303, 0x0304], some [0x004f, 0x0307], some [0x006f, 0x0307],
  some [0x004f, 0x0307, 0x0304], some [0x006f, 0x0307, 0x0304], some [0x0059, 0x0304],
  some [0x0079, 0x0304]]

def unicharDecompositionDataKana : List (Option (List Unichar)) := [
  some [0x3042], none, some [0x3044], none, some [0x3046], none, some [0x3048], none,
  some [0x304a], none, none, some [0x304b, 0x3099], none, some [0x304d, 0x3099], none,
  some [0x304f, 0x3099], none, some [0x3051, 0x3099], none, some [0x3053, 0x3099], none,
  some [0x3055, 0x3099], none, some [0x3057, 0x3099], none, some [0x3059, 0x3099], none,
  some [0x305b, 0x3099], none, some [0x305d, 0x3099], none, some [0x305f, 0x3099], none,
  some [0x3061, 0x3099], some [0x3064], none, some [0x3064, 0x3099], none, some [0x3066, 0x3099],
  none, some [0x3068, 0x3099], none, none, none, none, none, none, some [0x306f, 0x3099],
  some [0x306f, 0x309a], none, some [0x3072, 0x3099], some [0x3072, 0x309a], none,
  some [0x3075, 0x3099], some [0x3075, 0x309a], none, some [0x3078, 0x3099],
  some [0x3078, 0x309a], none, some [0x307b, 0x3099], some [0x307b, 0x309a], none, none, none,
  none, none, some [0x3084], none, some [0x3086], none, some [0x3088], none, none, none, none,
  none, none, some [0x308f], none, none, none, none, none, some [0x3046, 0x3099], some [0x304b],
  some [0x3051], none, none, none, none, some [0x0020, 0x3099], some [0x0020, 0x309a], none,
  some [0x309d, 0x3099], some [0x3088, 0x308a], none, some [0x3042], some [0x3042],
  some [0x3044], some [0x3044], some [0x3046], some [0x3046], some [0x3048], some [0x3048],
  some [0x304a], some [0x304a], some [0x304b], some [0x304b, 0x3099], some [0x304d],
  some [0x304d, 0x3099], some [0x304f], some [0x304f, 0x3099], some [0x3051],
  some [0x3051, 0x3099], some [0x3053], some [0x3053, 0x3099], some [0x3055],
  some [0x3055, 0x3099], some [0x3057], some [0x3057, 0x3099], some [0x3059],
  some [0x3059, 0x3099], some [0x305b], some [0x305b, 0x3099], some [0x305d],
  some [0x305d, 0x3099], some [0x305f], some [0x305f, 0x3099], some [0x3061],
  some [0x3061, 0x3099], some [0x3064], some [0x3064], some [0x3064, 0x3099], some [0x3066],
  some [0x3066, 0x3099], some [0x3068], some [0x3068, 0x3099], some [0x306a], some [0x306b],
  some [0x306c], some [0x306d], some [0x306e], some [0x306f], some [0x306f, 0x3099],
  some [0x306f, 0x309a], some [0x3072], some [0x3072, 0x3099], some [0x3072, 0x309a],
  some [0x3075], some [0x3075, 0x3099], some [0x3075, 0x309a], some [0x3078],
  some [0x3078, 0x3099], some [0x3078, 0x309a], some [0x307b], some [0x307b, 0x3099],
  some [0x307b, 0x309a], some [0x307e], some [0x307f], some [0x3080], some [0x3081],
  some [0x3082], some [0x3084], some [0x3084], some [0x3086], some [0x3086], some [0x3088],
  some [0x3088], some [0x3089], some [0x308a], some [0x308b], some [0x308c], some [0x308d],
  some [0x308f], some [0x308f], some [0x3090], some [0x3091], some [0x3092], some [0x3093],
  some [0x3046, 0x3099], some [0x304b], some [0x3051], some [0x30ef, 0x3099],
  some [0x30f0, 0x3099], some [0x30f1, 0x3099], some [0x30f2, 0x3099], none, none, some [0x309d],
  some [0x309d, 0x3099], some [0x30b3, 0x30c8]]

def unicharDecompositionDataKatakanaPhoneticExtensions : List (Option (List Unichar)) := [
  some [0x304f], some [0x3057], some [0x3059], some [0x3068], some [0x306c], some [0x306f],
  some [0x3072], some [0x3075], some [0x3078], some [0x307b], some [0x3080], some [0x3089],
  some [0x308a], some [0x308b], some [0x308c], some [0x308d]]

def unicharDecompositionDataCircledKatakana : List (Option (List Unichar)) := [
  some [0x3042], some [0x3044], some [0x3046], some [0x3048], some [0x304a], some [0x304b],
  some [0x304d], some [0x304f], some [0x3051], some [0x3053], some [0x3055], some [0x3057],
  some [0x3059], some [0x305b], some [0x305d], some [0x305f], some [0x3061], some [0x3064],
  some [0x3066], some [0x3068], some [0x306a], some [0x306b], some [0x306c], some [0x306d],
  some [0x306e], some [0x306f], some [0x3072], some [0x3075], some [0x3078], some [0x307b],
  some [0x307e], some [0x307f], some [0x3080], some [0x3081], some [0x3082], some [0x3084],
  some [0x3086], some [0x3088], some [0x3089], some [0x308a], some [0x308b], some [0x308c],
  some [0x308d], some [0x308f], some [0x3090], some [0x3091], some [0x3092]]

def unicharDecompositionDataFullwidthLatin : List (Option (List Unichar)) := [
  some [0x0021], some [0x0022], some [0x0023], some [0x0024], some [0x0025], some [0x0026],
  some [0x0027], some [0x0028], some [0x0029], some [0x002a], some [0x002b], some [0x002c],
  some [0x002d], some [0x002e], some [0x002f], some [0x0030], some [0x0031], some [0x0032],
  some [0x0033], some [0x0034], some [0x0035], some [0x0036], some [0x0037], some [0x0038],
  some [0x0039], some [0x003a], some [0x003b], some [0x003c], some [0x003d], some [0x003e],
  some [0x003f], some [0x0040], some [0x0041], some [0x0042], some [0x0043], some [0x0044],
  some [0x0045], some [0x0046], some [0x0047], some [0x0048], some [0x0049], some [0x004a],
  some [0x004b], some [0x004c], some [0x004d], some [0x004e], some [0x004f], some [0x0050],
  some [0x0051], some [0x0052], some [0x0053], some [0x0054], some [0x0055], some [0x0056],
  some [0x0057], some [0x0058], some [0x0059], some [0x005a], some [0x005b], some [0x005c],
  some [0x005d], some [0x005e], some [0x005f], some [0x0060], some [0x0061], some [0x0062],
  some [0x0063], some [0x0064], some [0x0065], some [0x0066], some [0x0067], some [0x0068],
  some [0x0069], some [0x006a], some [0x006b], some [0x006c], some [0x006d], some [0x006e],
  some [0x006f], some [0x0070], some [0x0071], some [0x0072], some [0x0073], some [0x0074],
  some [0x0075], some [0x0076], some [0x0077], some [0x0078], some [0x0079], some [0x007a],
  some [0x007b], some [0x007c], some [0x007d], some [0x007e]]

def unicharDecompositionDataHalfwidthKatakana : List (Option (List Unichar)) := [
  some [0x30fb], some [0x3092], some [0x3042], some [0x3044], some [0x3046], some [0x3048],
  some [0x304a], some [0x3084], some [0x3086], some [0x3088], some [0x3064], some [0x30fc],
  some [0x3042], some [0x3044], some [0x3046], some [0x3048], some [0x304a], some [0x304b],
  some [0x304d], some [0x304f], some [0x3051], some [0x3053], some [0x3055], some [0x3057],
  some [0x3059], some [0x305b], some [0x305d], some [0x305f], some [0x3061], some [0x3064],
  some [0x3066], some [0x3068], some [0x306a], some [0x306b], some [0x306c], some [0x306d],
  some [0x306e], some [0x306f], some [0x3072], some [0x3075], some [0x3078], some [0x307b],
  some [0x307e], some [0x307f], some [0x3080], some [0x3081], some [0x3082], some [0x3084],
  some [0x3086], some [0x3088], some [0x3089], some [0x308a], some [0x308b], some [0x308c],
  some [0x308d], some [0x308f], some [0x3093], some [0x3099], some [0x309a]]

/-- The decomposition table. -/
def unicharDecompositionData : UnicharDecompositionTable := [
  ⟨0x00a0, 0x0233, unicharDecompositionDataLatin, by decide +kernel, by decide +kernel⟩,
  ⟨0x3041, 0x30ff, unicharDecompositionDataKana, by decide +kernel, by decide +kernel⟩,
  ⟨0x31f0, 0x31ff, unicharDecompositionDataKatakanaPhoneticExtensions, by decide +kernel, by decide +kernel⟩,
  ⟨0x32d0, 0x32fe, unicharDecompositionDataCircledKatakana, by decide +kernel, by decide +kernel⟩,
  ⟨0xff01, 0xff5e, unicharDecompositionDataFullwidthLatin, by decide +kernel, by decide +kernel⟩,
  ⟨0xff65, 0xff9f, unicharDecompositionDataHalfwidthKatakana, by decide +kernel, by decide +kernel⟩]

end NdsDevkit.Text

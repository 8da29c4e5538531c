namespace NdsDevkit.Tokenizer

/-- The ranges of characters with a diacritic: eight times the first one, plus the number of those
that follow. -/
def aDia : List Nat := [
  0, 1797, 1848, 1859, 1891, 1928, 1940, 1995, 2024, 2040, 2060, 2110, 2168, 2206, 2264, 2286,
  2344, 2383, 2472, 2488, 2516, 2596, 2668, 2732, 2782, 2842, 2894, 2954, 2984, 3000, 3028, 3336,
  3456, 3696, 3712, 3728, 3744, 3896, 3912, 3928, 3968, 4008, 4040, 4106, 4138, 4170, 4202, 4234,
  4266, 4296, 4312, 4344, 4408, 4424, 4472, 4504, 6148, 6198, 6264, 6280, 6360, 6429, 6505, 6529,
  61448, 61468, 61534, 61592, 61642, 61688, 61704, 61726, 61784, 61800, 61836, 61880, 61914,
  61948, 61998, 62122, 62154, 62200, 62218, 62302, 62364, 62442, 62478, 62536, 62554, 62584,
  62604, 62640, 62648, 62656, 62664, 62730, 62924, 63050, 63082, 63274, 63390]

/-- The base letters of these ranges, 0 for characters that are diacritics themselves. -/
def aChar : List Nat := [
  0, 97, 99, 101, 105, 110, 111, 117, 121, 121, 97, 99, 100, 101, 101, 103, 104, 105, 106, 107,
  108, 110, 111, 114, 115, 116, 117, 117, 119, 121, 122, 111, 117, 97, 105, 111, 117, 103, 107,
  111, 106, 103, 110, 97, 101, 105, 111, 114, 117, 115, 116, 104, 97, 101, 111, 121, 0, 0, 0, 0,
  0, 0, 0, 0, 97, 98, 100, 100, 101, 102, 103, 104, 104, 105, 107, 108, 108, 109, 110, 112, 114,
  114, 115, 116, 117, 118, 119, 119, 120, 121, 122, 104, 116, 119, 121, 97, 101, 105, 111, 117,
  121]

/-- A folding rule for `nRange` characters from `iCode` on. The lowest bit of `flags` says that only
every second one is folded, the others are an index into `aiOff`. -/
structure TableEntry where
  iCode : Nat
  flags : Nat
  nRange : Nat

def foldEntries : List TableEntry := [
  ⟨65, 14, 26⟩, ⟨181, 64, 1⟩, ⟨192, 14, 23⟩, ⟨216, 14, 7⟩, ⟨256, 1, 48⟩, ⟨306, 1, 6⟩,
  ⟨313, 1, 16⟩, ⟨330, 1, 46⟩, ⟨376, 116, 1⟩, ⟨377, 1, 6⟩, ⟨383, 104, 1⟩, ⟨385, 50, 1⟩,
  ⟨386, 1, 4⟩, ⟨390, 44, 1⟩, ⟨391, 0, 1⟩, ⟨393, 42, 2⟩, ⟨395, 0, 1⟩, ⟨398, 32, 1⟩, ⟨399, 38, 1⟩,
  ⟨400, 40, 1⟩, ⟨401, 0, 1⟩, ⟨403, 42, 1⟩, ⟨404, 46, 1⟩, ⟨406, 52, 1⟩, ⟨407, 48, 1⟩, ⟨408, 0, 1⟩,
  ⟨412, 52, 1⟩, ⟨413, 54, 1⟩, ⟨415, 56, 1⟩, ⟨416, 1, 6⟩, ⟨422, 60, 1⟩, ⟨423, 0, 1⟩, ⟨425, 60, 1⟩,
  ⟨428, 0, 1⟩, ⟨430, 60, 1⟩, ⟨431, 0, 1⟩, ⟨433, 58, 2⟩, ⟨435, 1, 4⟩, ⟨439, 62, 1⟩, ⟨440, 0, 1⟩,
  ⟨444, 0, 1⟩, ⟨452, 2, 1⟩, ⟨453, 0, 1⟩, ⟨455, 2, 1⟩, ⟨456, 0, 1⟩, ⟨458, 2, 1⟩, ⟨459, 1, 18⟩,
  ⟨478, 1, 18⟩, ⟨497, 2, 1⟩, ⟨498, 1, 4⟩, ⟨502, 122, 1⟩, ⟨503, 134, 1⟩, ⟨504, 1, 40⟩,
  ⟨544, 110, 1⟩, ⟨546, 1, 18⟩, ⟨570, 70, 1⟩, ⟨571, 0, 1⟩, ⟨573, 108, 1⟩, ⟨574, 68, 1⟩,
  ⟨577, 0, 1⟩, ⟨579, 106, 1⟩, ⟨580, 28, 1⟩, ⟨581, 30, 1⟩, ⟨582, 1, 10⟩, ⟨837, 36, 1⟩, ⟨880, 1, 4⟩,
  ⟨886, 0, 1⟩, ⟨902, 18, 1⟩, ⟨904, 16, 3⟩, ⟨908, 26, 1⟩, ⟨910, 24, 2⟩, ⟨913, 14, 17⟩,
  ⟨931, 14, 9⟩, ⟨962, 0, 1⟩, ⟨975, 4, 1⟩, ⟨976, 140, 1⟩, ⟨977, 142, 1⟩, ⟨981, 146, 1⟩,
  ⟨982, 144, 1⟩, ⟨984, 1, 24⟩, ⟨1008, 136, 1⟩, ⟨1009, 138, 1⟩, ⟨1012, 130, 1⟩, ⟨1013, 128, 1⟩,
  ⟨1015, 0, 1⟩, ⟨1017, 152, 1⟩, ⟨1018, 0, 1⟩, ⟨1021, 110, 3⟩, ⟨1024, 34, 16⟩, ⟨1040, 14, 32⟩,
  ⟨1120, 1, 34⟩, ⟨1162, 1, 54⟩, ⟨1216, 6, 1⟩, ⟨1217, 1, 14⟩, ⟨1232, 1, 88⟩, ⟨1329, 22, 38⟩,
  ⟨4256, 66, 38⟩, ⟨4295, 66, 1⟩, ⟨4301, 66, 1⟩, ⟨7680, 1, 150⟩, ⟨7835, 132, 1⟩, ⟨7838, 96, 1⟩,
  ⟨7840, 1, 96⟩, ⟨7944, 150, 8⟩, ⟨7960, 150, 6⟩, ⟨7976, 150, 8⟩, ⟨7992, 150, 8⟩, ⟨8008, 150, 6⟩,
  ⟨8025, 151, 8⟩, ⟨8040, 150, 8⟩, ⟨8072, 150, 8⟩, ⟨8088, 150, 8⟩, ⟨8104, 150, 8⟩, ⟨8120, 150, 2⟩,
  ⟨8122, 126, 2⟩, ⟨8124, 148, 1⟩, ⟨8126, 100, 1⟩, ⟨8136, 124, 4⟩, ⟨8140, 148, 1⟩, ⟨8152, 150, 2⟩,
  ⟨8154, 120, 2⟩, ⟨8168, 150, 2⟩, ⟨8170, 118, 2⟩, ⟨8172, 152, 1⟩, ⟨8184, 112, 2⟩, ⟨8186, 114, 2⟩,
  ⟨8188, 148, 1⟩, ⟨8486, 98, 1⟩, ⟨8490, 92, 1⟩, ⟨8491, 94, 1⟩, ⟨8498, 12, 1⟩, ⟨8544, 8, 16⟩,
  ⟨8579, 0, 1⟩, ⟨9398, 10, 26⟩, ⟨11264, 22, 47⟩, ⟨11360, 0, 1⟩, ⟨11362, 88, 1⟩, ⟨11363, 102, 1⟩,
  ⟨11364, 90, 1⟩, ⟨11367, 1, 6⟩, ⟨11373, 84, 1⟩, ⟨11374, 86, 1⟩, ⟨11375, 80, 1⟩, ⟨11376, 82, 1⟩,
  ⟨11378, 0, 1⟩, ⟨11381, 0, 1⟩, ⟨11390, 78, 2⟩, ⟨11392, 1, 100⟩, ⟨11499, 1, 4⟩, ⟨11506, 0, 1⟩,
  ⟨42560, 1, 46⟩, ⟨42624, 1, 24⟩, ⟨42786, 1, 14⟩, ⟨42802, 1, 62⟩, ⟨42873, 1, 4⟩, ⟨42877, 76, 1⟩,
  ⟨42878, 1, 10⟩, ⟨42891, 0, 1⟩, ⟨42893, 74, 1⟩, ⟨42896, 1, 4⟩, ⟨42912, 1, 10⟩, ⟨42922, 72, 1⟩,
  ⟨65313, 14, 26⟩]

def aiOff : List Nat := [
  1, 2, 8, 15, 16, 26, 28, 32, 37, 38, 40, 48, 63, 64, 69, 71, 79, 80, 116, 202, 203, 205, 206,
  207, 209, 210, 211, 213, 214, 217, 218, 219, 775, 7264, 10792, 10795, 23228, 23256, 30204,
  54721, 54753, 54754, 54756, 54787, 54793, 54809, 57153, 57274, 57921, 58019, 58363, 61722,
  65268, 65341, 65373, 65406, 65408, 65410, 65415, 65424, 65436, 65439, 65450, 65462, 65472,
  65476, 65478, 65480, 65482, 65488, 65506, 65511, 65514, 65521, 65527, 65528, 65529]

/-- The ranges of characters that are no token characters: 1024 times the first one, plus their
number. -/
def alNumEntries : List Nat := [
  0x00000030, 0x0000e807, 0x00016c06, 0x0001ec2f, 0x0002ac07, 0x0002d001, 0x0002d803, 0x0002ec01,
  0x0002fc01, 0x00035c01, 0x0003dc01, 0x000b0804, 0x000b480e, 0x000b9407, 0x000bb401, 0x000bbc11,
  0x000dd401, 0x000df801, 0x000e1002, 0x000e1c01, 0x000fd801, 0x00120808, 0x00156806, 0x00162402,
  0x00163c01, 0x00164437, 0x0017cc02, 0x00180005, 0x00181816, 0x00187802, 0x00192c15, 0x0019a804,
  0x0019c001, 0x001b5001, 0x001b580f, 0x001b9c07, 0x001bf402, 0x001c000e, 0x001c3c01, 0x001c4401,
  0x001cc01b, 0x001e980b, 0x001fac09, 0x001fd804, 0x00205804, 0x00206c09, 0x00209403, 0x0020a405,
  0x0020c00f, 0x00216403, 0x00217801, 0x0023901b, 0x00240004, 0x0024e803, 0x0024f812, 0x00254407,
  0x00258804, 0x0025c001, 0x00260403, 0x0026f001, 0x0026f807, 0x00271c02, 0x00272c03, 0x00275c01,
  0x00278802, 0x0027c802, 0x0027e802, 0x00280403, 0x0028f001, 0x0028f805, 0x00291c02, 0x00292c03,
  0x00294401, 0x0029c002, 0x0029d401, 0x002a0403, 0x002af001, 0x002af808, 0x002b1c03, 0x002b2c03,
  0x002b8802, 0x002bc002, 0x002c0403, 0x002cf001, 0x002cf807, 0x002d1c02, 0x002d2c03, 0x002d5802,
  0x002d8802, 0x002dc001, 0x002e0801, 0x002ef805, 0x002f1803, 0x002f2804, 0x002f5c01, 0x002fcc08,
  0x00300403, 0x0030f807, 0x00311803, 0x00312804, 0x00315402, 0x00318802, 0x0031fc01, 0x00320802,
  0x0032f001, 0x0032f807, 0x00331803, 0x00332804, 0x00335402, 0x00338802, 0x00340802, 0x0034f807,
  0x00351803, 0x00352804, 0x00355c01, 0x00358802, 0x0035e401, 0x00360802, 0x00372801, 0x00373c06,
  0x00375801, 0x00376008, 0x0037c803, 0x0038bc01, 0x00391801, 0x00393c01, 0x00396802, 0x003ac401,
  0x003ad006, 0x003aec02, 0x003b2006, 0x003c041f, 0x003cd00c, 0x003dc417, 0x003e340b, 0x003e6424,
  0x003ef80f, 0x003f380d, 0x0040ac14, 0x00412806, 0x00415804, 0x00417803, 0x00418803, 0x00419c07,
  0x0041c404, 0x0042080c, 0x00423c01, 0x00426806, 0x0043ec01, 0x004d740c, 0x004e400a, 0x00500001,
  0x0059b402, 0x005a0001, 0x005a6c02, 0x005bac03, 0x005c4803, 0x005cc805, 0x005d4802, 0x005dc802,
  0x005ed023, 0x005f6004, 0x005f7401, 0x0060000f, 0x0062a401, 0x0064800c, 0x0064c00c, 0x00650001,
  0x00651002, 0x0066c011, 0x00672002, 0x00677822, 0x00685c05, 0x00687802, 0x0069540a, 0x0069801d,
  0x0069fc01, 0x006a8007, 0x006aa006, 0x006c0005, 0x006cd011, 0x006d6823, 0x006e0003, 0x006e840d,
  0x006f980e, 0x006ff004, 0x00709014, 0x0070ec05, 0x0071f802, 0x00730008, 0x00734019, 0x0073b401,
  0x0073c803, 0x007ef401, 0x007efc03, 0x007f3403, 0x007f7403, 0x007fb403, 0x007ff402, 0x00800065,
  0x0081a806, 0x0081e805, 0x00822805, 0x0082801a, 0x00840002, 0x00840c04, 0x00842002, 0x00845001,
  0x00845803, 0x00847806, 0x00849401, 0x00849c01, 0x0084a401, 0x0084b801, 0x0084e802, 0x00850005,
  0x00852804, 0x00853c01, 0x00864264, 0x00900027, 0x0091000b, 0x00940200, 0x009c0475, 0x009e53b9,
  0x00ad400a, 0x00b39406, 0x00b3bc03, 0x00b3e404, 0x00b3f802, 0x00b5c001, 0x00b5fc01, 0x00b7804f,
  0x00b8c00c, 0x00ba001a, 0x00ba6c59, 0x00bc00d6, 0x00bfc00c, 0x00c00005, 0x00c02019, 0x00c0a807,
  0x00c0d802, 0x00c0f403, 0x00c28001, 0x00c3ec01, 0x00c64002, 0x00c6580a, 0x00c70024, 0x00c94001,
  0x00c9fc01, 0x00cb3004, 0x00cc0100, 0x01370040, 0x02924037, 0x0293f802, 0x02983403, 0x0299bc10,
  0x029a7c01, 0x029bc008, 0x029c0017, 0x029c8002, 0x029e2402, 0x02a00801, 0x02a01801, 0x02a02c01,
  0x02a08c09, 0x02a0d804, 0x02a1d004, 0x02a20002, 0x02a2d011, 0x02a33802, 0x02a38012, 0x02a3e003,
  0x02a4980a, 0x02a51c0d, 0x02a57c01, 0x02a60004, 0x02a6cc1b, 0x02a77802, 0x02a8a40e, 0x02a90c01,
  0x02a93002, 0x02a97004, 0x02a9dc03, 0x02a9ec01, 0x02aac001, 0x02aac803, 0x02aadc02, 0x02aaf802,
  0x02ab0401, 0x02ab7802, 0x02abac07, 0x02abd402, 0x02af8c0b, 0x03600001, 0x036dfc02, 0x036ffc02,
  0x037ffc01, 0x03ec7801, 0x03eca401, 0x03eec810, 0x03f4f802, 0x03f7f002, 0x03f8001a, 0x03f8c023,
  0x03f95013, 0x03f9a004, 0x03fbfc01, 0x03fc040f, 0x03fc6807, 0x03fcec06, 0x03fd6c0b, 0x03ff8007,
  0x03ffa007, 0x03ffe405, 0x04040003, 0x0404dc09, 0x0405e411, 0x0406400c, 0x0407402e, 0x040e7c01,
  0x040f4001, 0x04215c01, 0x04247c01, 0x0424fc01, 0x04280403, 0x04281402, 0x04283004, 0x0428e003,
  0x0428fc01, 0x04294009, 0x0429fc01, 0x042ce407, 0x04400003, 0x0440e016, 0x04420003, 0x0442c012,
  0x04440003, 0x04449c0e, 0x04450004, 0x04460003, 0x0446cc0e, 0x04471404, 0x045aac0d, 0x0491c004,
  0x05bd442e, 0x05be3c04, 0x074000f6, 0x07440027, 0x0744a4b5, 0x07480046, 0x074c0057, 0x075b0401,
  0x075b6c01, 0x075bec01, 0x075c5401, 0x075cd401, 0x075d3c01, 0x075dbc01, 0x075e2401, 0x075ea401,
  0x075f0c01, 0x07bbc002, 0x07c0002c, 0x07c0c064, 0x07c2800f, 0x07c2c40e, 0x07c3040f, 0x07c3440f,
  0x07c4401f, 0x07c4c03c, 0x07c5c02b, 0x07c7981d, 0x07c8402b, 0x07c90009, 0x07c94002, 0x07cc0021,
  0x07ccc006, 0x07ccdc46, 0x07ce0014, 0x07ce8025, 0x07cf1805, 0x07cf8011, 0x07d0003f, 0x07d10001,
  0x07d108b6, 0x07d3e404, 0x07d4003e, 0x07d50004, 0x07d54018, 0x07d7ec46, 0x07d9140b, 0x07da0046,
  0x07dc0074, 0x38000401, 0x38008060, 0x380400f0]

/-- One bit for each of the first 128 characters that is no token character. -/
def aAscii : List Nat := [0xffffffff, 0xfc00ffff, 0xf8000001, 0xf8000001]

end NdsDevkit.Tokenizer

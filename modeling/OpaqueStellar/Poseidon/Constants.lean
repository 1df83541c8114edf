import OpaqueStellar.Poseidon.Field

/-! # The tables of the permutation

`contracts/opaque-poseidon/src/constants.rs`: round constants and matrices for three and for four elements,
in Montgomery form. Every entry is below the modulus. -/

namespace OpaqueStellar.Poseidon

/-- Full rounds, half at the start and half at the end. -/
def N_ROUNDS_F : ℕ := 8

def N_ROUNDS_P_T3 : ℕ := 57

def N_ROUNDS_P_T4 : ℕ := 56

def C_T3 : List Fr := [
  ⟨[0x83bbbac36534a858, 0x0971619601250a07, 0x27a219050e23910c, 0x1638bf18c8507442], rfl⟩,
  ⟨[0x5e2bb0e6bb25631a, 0x56b042b8def5875e, 0x01bc3e10a8e9b451, 0x17bfe16092ef1d7e], rfl⟩,
  ⟨[0xa4fef9b954508d89, 0xafeb6b7d4ee4c69e, 0xd8ebe8a7fc301c39, 0x1840976e07ad780c], rfl⟩,
  ⟨[0x18b8e553a04b72cb, 0x4d654fb8ec90df10, 0x3f8dafc39d1b9658, 0x1a72c6a50e4e6a8a], rfl⟩,
  ⟨[0x44f18fdd12c7177a, 0x43d28a9b520bd0ee, 0x440b83130192f008, 0x13c53f3b277b2fde], rfl⟩,
  ⟨[0xfc116b6c9e33b756, 0x933e67d042eb5320, 0xabc0d9f2c9d9bdcf, 0x23b0bd1fabcb64b0], rfl⟩,
  ⟨[0xde8ebdf8535243af, 0x1e851377b3d81387, 0xdfa4b107ef127fb9, 0x1e12da839a042314], rfl⟩,
  ⟨[0xe25ff0a9dd264f6b, 0x0215e509d49d08b2, 0xc2cf093542425093, 0x0baaf53d85cb02e0], rfl⟩,
  ⟨[0x6eaa462f90cf8115, 0xaf07e5d221dd2e13, 0x9a0b65abec88aa63, 0x1fcea175624b262f], rfl⟩,
  ⟨[0x99aa70f04fe89c1e, 0xdc11129d80826695, 0x1a68006fcc353aee, 0x299ea7eabe5d4996], rfl⟩,
  ⟨[0x413df2c8c5541138, 0xeb469618c9de6bb3, 0x1a668e52b76fe275, 0x0fed7116657d8da5], rfl⟩,
  ⟨[0x4c5cd4085911f6df, 0xa69c3b9c95ae98e6, 0xf308d88c93d19608, 0x079c79c9cffd5ad4], rfl⟩,
  ⟨[0xdd5d50a6115b6ae6, 0x3e2079ce31994482, 0x0beac0a93142d7a6, 0x29838a07888323b4], rfl⟩,
  ⟨[0x3031a7c21bf4f9f8, 0xf093c1cc653a991a, 0x092a0cd128aac7c2, 0x1e230e4aa7c4c266], rfl⟩,
  ⟨[0x2a72b06d29407105, 0x281dbf7148ac7771, 0x175c5083bc22a44d, 0x08c912947cf53b92], rfl⟩,
  ⟨[0x7eb180a889ee3c2d, 0xd38343a986d44c8c, 0x286bdbe0472b1d0e, 0x24f6be203117cc53], rfl⟩,
  ⟨[0xe221229550b8eb66, 0x9ffe52fabfc796eb, 0x1b9eef2ed361ed14, 0x0c575104fa7034f4], rfl⟩,
  ⟨[0xf9b28f842a2e4643, 0x4d5c080bd2ca1317, 0xcd76ae812c271eb9, 0x0ea4878f3b96e943], rfl⟩,
  ⟨[0x1b12a0ead7ee00cd, 0x794461ec0d8acd32, 0x3abb3e24c75e20a7, 0x27cb85854f2c16db], rfl⟩,
  ⟨[0xc34a0ce29e5c844a, 0xbae3900198f23f61, 0xf582e09985e6d0c4, 0x055c6d26a35cf2de], rfl⟩,
  ⟨[0x33e1751f74f74c21, 0xdef83f5279f2ec1a, 0x3ce7d0bd374490ba, 0x0eecc29342805119], rfl⟩,
  ⟨[0xe45772c6259d3e58, 0x4c683f93ebeab683, 0xfb8c13b607a4642e, 0x2e3e8ef03eeaed41], rfl⟩,
  ⟨[0xd197c44c630c5eb4, 0x053857ab70186b79, 0x18ee44c7bdb0d26a, 0x18b94e2583a0557b], rfl⟩,
  ⟨[0xd27736b000acdc77, 0x258b4b227cbcb7f5, 0x40df2e84269de616, 0x209aa4bbc966b500], rfl⟩,
  ⟨[0x5aafe5dc0720254f, 0x0e91a580f18d1016, 0x11a00abff154d5b7, 0x28083140319b0d09], rfl⟩,
  ⟨[0x624ed13efd7f2bca, 0xcc9e53bcf2c28b13, 0x7ca39c04d885ccfa, 0x032c7e9c1ed0d643], rfl⟩,
  ⟨[0xbee575ac208c3258, 0x8976d09923790363, 0xeac3c4d39b58eaaf, 0x28585586ade6e3d5], rfl⟩,
  ⟨[0x275e64927c987248, 0x1023453306381ce9, 0xd90511a7cb2159f6, 0x2997881a59a4151b], rfl⟩,
  ⟨[0x96ea7b645b7ee005, 0x12e49ee4759a80d5, 0x3ff0710c0c7c209c, 0x1207d4f65a29a973], rfl⟩,
  ⟨[0x225570d6a943095f, 0xa11ab5832d54aa69, 0x5ed544b9dc72feac, 0x16ba83b29fa0dfde], rfl⟩,
  ⟨[0xd35fe784498f8347, 0x448e2c74dc5c310b, 0x8bc35d4158df81d3, 0x11a01d27b058a3b8], rfl⟩,
  ⟨[0xcf4dac5594af2d83, 0xc6f6531b8cc21243, 0x6e65adc157b9548f, 0x082a1067f00d6dfb], rfl⟩,
  ⟨[0x173fc30b103a6dcf, 0xc91b63e498d301c3, 0xb8f7ea4064eea1f2, 0x06548827d7df35e4], rfl⟩,
  ⟨[0xf1dcdd1866e91665, 0xaf44edb31bfcc76e, 0x69a2f851bc5fdeb1, 0x16a3add7fd6847e5], rfl⟩,
  ⟨[0x277fa19569af0ab3, 0x28e4a94421550cd3, 0x8b1893dc1510def2, 0x152b3eebf2e3b9af], rfl⟩,
  ⟨[0x82a43eaade461743, 0x4bd307501a719bfd, 0x94e914f0f35fb5ea, 0x2d45e6c07093f3ec], rfl⟩,
  ⟨[0x1307c7dfcdec9d68, 0x569ed7de9138f494, 0x3345109c6374a0b6, 0x21b5a1904b9d9fa1], rfl⟩,
  ⟨[0xeb775b5909a98dc7, 0x54a57335128a23bf, 0x5b11e52888015162, 0x212a6cfdd608fde8], rfl⟩,
  ⟨[0x4c04265f18d146f1, 0x10d10bc4c7853d4e, 0xa8e2a51db14f2f2c, 0x0f5fd95645106055], rfl⟩,
  ⟨[0x68dd43d7b51c37dd, 0x1e46476089e1d073, 0x58e04cf38f805754, 0x0b0bbf5b8688b08b], rfl⟩,
  ⟨[0x1b14f57c4122a309, 0xe02913572e132548, 0x8d3c17048b7c32db, 0x22434cd0616dbf37], rfl⟩,
  ⟨[0xa0a5d482a6154db8, 0xd1c8cb01ba422f45, 0xb8a57919e05a3d45, 0x285a24a238af96cb], rfl⟩,
  ⟨[0x1aaa1405fafbd364, 0xb8d8b685230034b7, 0x0b7aef992fcc0854, 0x28d85f4b9f36af66], rfl⟩,
  ⟨[0x21fc148d2efde136, 0xc0a3008d29eeb0a8, 0xf3914ca16745a3c9, 0x0856523236dd2341], rfl⟩,
  ⟨[0xa14a336112fbf9f3, 0xb1ff289ba2eae970, 0x32a2feccaf57f78d, 0x003726ecc0267f6c], rfl⟩,
  ⟨[0x65e4051e623a8231, 0x3de6d47d48c406d3, 0xa9bbd406bdb8ead2, 0x0d600d159a165a0c], rfl⟩,
  ⟨[0x50648feb424d5e04, 0x78694de6ef267969, 0x5aa8b3580718f950, 0x1b044d4e05de9b70], rfl⟩,
  ⟨[0x2a796e5ea8f4e119, 0x946bbb44d739483a, 0xe21604d22b7ff1bb, 0x0c4327027869e663], rfl⟩,
  ⟨[0xe85e117615b09542, 0x96ce582e170967b3, 0x065b39840af36d54, 0x11b11f0e477f05b0], rfl⟩,
  ⟨[0x0d74f0994cb254bf, 0x4f4e4871fc63bd6d, 0x89d7b727ebdad559, 0x2cf20283390eb822], rfl⟩,
  ⟨[0xa30b526823bdb058, 0x886bb7b6f8eccd0d, 0x1f437e6dbc295914, 0x29ad2879e6833325], rfl⟩,
  ⟨[0xec3b39410fe43a5d, 0x3fb9d90ddcfa176a, 0x5fcaa229a47556d0, 0x07a583162e51b6d8], rfl⟩,
  ⟨[0x5b3fe2630608396e, 0x1e4496112e954403, 0x855a9daaa37c42a9, 0x10f643f4b4fa5128], rfl⟩,
  ⟨[0x28590d0004f98e35, 0xe13a159fc2cc8cf6, 0x8d22be85be68317a, 0x085a637b8618db96], rfl⟩,
  ⟨[0x5588c6954188d4d5, 0x28bdcaed360f0373, 0x67cc7a411974cf44, 0x27ab756e2cc849ac], rfl⟩,
  ⟨[0x32a0c18f088e99ad, 0x22795c50dd9cc1f3, 0x39c0855c6dc26a51, 0x12388feb2e428a82], rfl⟩,
  ⟨[0xaddbd56d19cb859c, 0x2f7ceda49032fb62, 0xebdf3719874c459e, 0x036d7aa8bc44149d], rfl⟩,
  ⟨[0x2caa41d785b941c8, 0x971e4e4c154f2c6b, 0x7874a8d468e0e6c8, 0x07b4735d54f5d234], rfl⟩,
  ⟨[0x01f51a3aa044c8f2, 0x7a636b4bfcab2c29, 0xb31eb377a96a00ce, 0x0f0c53f00bb104ac], rfl⟩,
  ⟨[0xd79328003e9566e7, 0xed5f36c07d3074ba, 0x8a2da6c60a9e4cb8, 0x28bd60c78f4c27c2], rfl⟩,
  ⟨[0xfffebd8720631bbc, 0x8efe2a4219d8aba5, 0x6bdf4ded7ef1b62d, 0x1ff6c9e06d6cf68e], rfl⟩,
  ⟨[0x22a696d457b8106d, 0x8b98ffed5d4905f8, 0x5edf9329bbef0232, 0x1392824c46ea4c39], rfl⟩,
  ⟨[0xab107cfef787c8a0, 0x278e7c4207fb3230, 0x99b9ea6ce46d8256, 0x0d682fd0fb31a00e], rfl⟩,
  ⟨[0x4ecef90fb11c850c, 0x84e45781c9eec3a9, 0x8ec25128e2f1f4f8, 0x2a2c1a8412a70cce], rfl⟩,
  ⟨[0x8f369a4d332e2cc7, 0xb22c513234251590, 0x706ac3aeb811231f, 0x19740e5e8ade8979], rfl⟩,
  ⟨[0x221080f029f28b75, 0xa437450974cb1e94, 0x87926f33c69f3da2, 0x029cf616ee2ad166], rfl⟩,
  ⟨[0x02442c4fee11e91d, 0x5dc410e07fdcbe17, 0x1a867232b63d9457, 0x1a1c9a07b2782748], rfl⟩,
  ⟨[0x1edb82dae474f114, 0xd3bc7df0735a0a00, 0x03b3817d280da899, 0x0701ed4f517f4c79], rfl⟩,
  ⟨[0xe14d649a6bf08497, 0xa3ea3ec2fba171b1, 0x8f61083e65c736bd, 0x1ac1a9fdf38c7ebb], rfl⟩,
  ⟨[0xcf49198274ef25d7, 0x562c05e01036644e, 0x3f41976e276e258c, 0x1f5be530194ef994], rfl⟩,
  ⟨[0x82c0529d3b0c6560, 0xce8537e7cb3d788c, 0x92494f9d3bd8e8bc, 0x132c81f43fd33e53], rfl⟩,
  ⟨[0x3f40cc1629cd3111, 0xb9f9665b8d257da8, 0x185f61f8e8e16198, 0x021adba7bd33ab21], rfl⟩,
  ⟨[0x342f2a113fd36130, 0x9ceccbd5349c530a, 0x617bd57533444841, 0x1648cdf733eee1d3], rfl⟩,
  ⟨[0x9efbd552827fcf73, 0xfaebeb1c6ab69375, 0x464172e7be8e88a8, 0x0847931e0d042c0f], rfl⟩,
  ⟨[0x120193648a28dc6c, 0x988a6302e7370526, 0xa78edb0d97474b0c, 0x19959641a1b547fa], rfl⟩,
  ⟨[0x8e6dfb112427c2d2, 0x20c25819e588e384, 0x1d88377d30897cb6, 0x2a508af373b9729a], rfl⟩,
  ⟨[0x1d14c873ddc51680, 0x0e0da86908009656, 0xbf4ec9ba1340d6a4, 0x0098bdf65a0afb9c], rfl⟩,
  ⟨[0x50d73614f3243e60, 0x45209e69e50c537e, 0xbf44d99fc759be13, 0x279f34df0724a583], rfl⟩,
  ⟨[0x219cffe63c3aa682, 0xa6dd59c7425acf48, 0x444cb706acccec8f, 0x2e8c17deff5b9dd4], rfl⟩,
  ⟨[0x9997c91436bf5d0b, 0x1629fb48677678be, 0x49c4d97bdb9eb29a, 0x2035dd09daa0d61e], rfl⟩,
  ⟨[0x10168e7c8e51546b, 0x507ec1516ab22d0c, 0x1a194fcaa4bf09c0, 0x0c637dc86849f4fd], rfl⟩,
  ⟨[0x57fe04691ea6f531, 0x2190682e353d037b, 0x72e47ef9e904d3b9, 0x211f475dfb3c75ed], rfl⟩,
  ⟨[0x7e838b86503617d0, 0xe6bad1948ae1955e, 0x707e58fad5b30483, 0x0a0972982b764b31], rfl⟩,
  ⟨[0x03bb8a08fc34185c, 0x7697ad2d4d810bfd, 0xfd12136fc816f501, 0x120d076c88279b56], rfl⟩,
  ⟨[0xee24105eeb22800c, 0xb7cbe7af82283d5e, 0x6191e1e38cd71bb5, 0x1aeaf2e491efd9a9], rfl⟩,
  ⟨[0xa04e07018cc9237a, 0x5361733b3151e0b6, 0x40e61ee38ddf97c3, 0x227af916f8b30fd4], rfl⟩,
  ⟨[0x3a89c2121dbc8729, 0xbc8fbdb3d8db1a87, 0xe86e48af8d840b86, 0x2ce7a4cb0acf31c8], rfl⟩,
  ⟨[0x5034a090dc3af464, 0x6ed46f82617008aa, 0x358e71ffd819f7e3, 0x26c8080ae116e13b], rfl⟩,
  ⟨[0x788952cfb8b52e37, 0xefc72a5be7fb7fbc, 0xc77bac4f9459447a, 0x001040af8a6d261e], rfl⟩,
  ⟨[0x16e6d600d2ff7426, 0xca5f5816acfc9401, 0xe38beefe9a0e0072, 0x21938b191a7bc331], rfl⟩,
  ⟨[0xd5b44d21a21f9297, 0x86167973aa7d0743, 0x79bd6f4550d4e54f, 0x03cfdb40ac6940ca], rfl⟩,
  ⟨[0x9c929ba1d69d55fc, 0x87d64dfc151271ae, 0x2d27e3179fac9536, 0x1a90b4df9101e879], rfl⟩,
  ⟨[0x7499664fc0ebe7ec, 0x09716f8e84931303, 0x4cc0dccb94634b45, 0x1a32f5ff8519e33c], rfl⟩,
  ⟨[0x870877b73b9bcaa9, 0x1881870f75379e4f, 0x9f3f06e451a7e672, 0x1151fe3bb41dcb29], rfl⟩,
  ⟨[0x0b7cb1a81cac0430, 0x271f481c441f88f9, 0xeda16949984a6294, 0x073cc8fe043bb91c], rfl⟩,
  ⟨[0x5d4c4bfe348cbfe4, 0xcfd654c4476c9489, 0xdd48f53cf0b1efcd, 0x06c975ea69621011], rfl⟩,
  ⟨[0x39fb6c74184c9024, 0x80e79b39a143fe21, 0xb1253d509d48cbfc, 0x1a4900be8c52124d], rfl⟩,
  ⟨[0x190a59d14d51b5c0, 0xa444e21ad8bdb73a, 0xb2259807fe061798, 0x271a2e9bbfcf2f6a], rfl⟩,
  ⟨[0xc0af13dc96417133, 0x1cb1c8979c88420d, 0x353f8e5673b9f841, 0x0ad2874818ce1183], rfl⟩,
  ⟨[0x5eae10d5fd0f7d29, 0x7da0cc2beaa853e4, 0xb844b04ad2a3b6e2, 0x0b184f0b40c038ee], rfl⟩,
  ⟨[0xe5e995b4b1d54591, 0x19548f28b12e5099, 0xe0da5976f40f1c72, 0x1c55359d2d014456], rfl⟩,
  ⟨[0x68c411465f6f87d8, 0xa3a18882c980c957, 0x5c79518c4fabcf20, 0x26edc29497bc5cb3], rfl⟩,
  ⟨[0xb50f63c3948b6732, 0x9c160bd71ae1dbb4, 0x24cfd9385abff66a, 0x02063a7ceced9ea6], rfl⟩,
  ⟨[0xdb0cbc35d22245b0, 0xfe86319a55232e6d, 0x6105fbfdf3add538, 0x2c2dc27c38d94255], rfl⟩,
  ⟨[0xf1895d988a8c8995, 0xdedefbad0c1b5a82, 0x5f3fb8bc0bd416d8, 0x0e2a4c7d21d78dc2], rfl⟩,
  ⟨[0x72f59f40b87cd518, 0x619b20e02d8b3ee3, 0xd6ebb896f7d9329f, 0x211c1fdf6141dd3a], rfl⟩,
  ⟨[0xd6e372c64f54c992, 0x99827b2bf785abe0, 0xb67492d94fbeae14, 0x0288174a915f1cb7], rfl⟩,
  ⟨[0x0cee89601a4ad1c5, 0x66dee7acd570e8b4, 0x237331b25471fc2c, 0x0f79a3dc068020d0], rfl⟩,
  ⟨[0x898fee0b8f31bc12, 0x5c8954aa2da1961c, 0x77326678c3da12af, 0x144313217a7f389f], rfl⟩,
  ⟨[0x05f342cad3b4864a, 0xe2c7d39d0656a010, 0x61b8bef5da62a23f, 0x195806ad7b6696ef], rfl⟩,
  ⟨[0x76c6fbf50cbdef02, 0xf535ea975a6b40f4, 0x0c5fe2383fe86bce, 0x117abeb34b8688b9], rfl⟩,
  ⟨[0x722fcd9132e35924, 0x8d991c0f2fa40665, 0xab060365a33bc385, 0x0b61468d5f2060aa], rfl⟩,
  ⟨[0xf37de77a8f1be22a, 0x427159a97577781e, 0x14e99813266148d9, 0x138e8d0f0e5be0c4], rfl⟩,
  ⟨[0xe1543733c9bb6fc7, 0xd8c9704535e21c8c, 0xd433edc282de438c, 0x11466ae0f81b3763], rfl⟩,
  ⟨[0x2cbd8cdb39524874, 0xf9855b644afce00e, 0xb290cb62abfbd66c, 0x25acd478b1084494], rfl⟩,
  ⟨[0x8ebc6672b41dcee8, 0x606f0745849196a1, 0xe55ae090bd88d82a, 0x009470554167249d], rfl⟩,
  ⟨[0x062094bcc7a6418b, 0x2803495b8583c637, 0x53eb48b97437c010, 0x0c7a1222e9138165], rfl⟩,
  ⟨[0x27eab79c36018a4e, 0xbd1864c1d0c4068d, 0xf902113a25a237e3, 0x128d87abeb1e9c1f], rfl⟩,
  ⟨[0xdb7fc417f7652d14, 0x58bd4f3aaac09e67, 0x728f58664d60e85c, 0x0f85a634b96fdda0], rfl⟩,
  ⟨[0xe32fe000e302eadc, 0x7d23c3dd3c7df083, 0x5bd45107b443a012, 0x2acca27428d1a73c], rfl⟩,
  ⟨[0xbf727ded10944264, 0x4ebf249fe7df1f42, 0x9ae7e1ea5448317c, 0x098478d1386f06d1], rfl⟩,
  ⟨[0x41702faeb62c6d90, 0x5dea60565d31eda6, 0x99144c98f362ec45, 0x0666d88648f73f04], rfl⟩,
  ⟨[0x83b3ca7e199d699c, 0x32ebc3b0c43d5f81, 0x14a61edd1a1d5f6b, 0x2cb5c8fea1103978], rfl⟩,
  ⟨[0x5d05e3ae54a68bc4, 0x4faa9d463460a6f2, 0x7f3ed5cd074f3aaf, 0x2d280f20dae67de3], rfl⟩,
  ⟨[0xd2efe4ca6dada240, 0x85c3424c91e6e450, 0x67ded928e819912f, 0x2a47110115ad187e], rfl⟩,
  ⟨[0xfd689c88325914ba, 0x217ccba0c4f678a8, 0x775c3aa0caac332b, 0x0237eeffadb3dc0b], rfl⟩,
  ⟨[0x951cba230d48ab5a, 0xac60fef56f7dcd80, 0xee0e118c667a107a, 0x286963de12abebeb], rfl⟩,
  ⟨[0xd5bf474c37545102, 0x8df0210724a7bbf7, 0x2869e00fd06cee5c, 0x10a5a9a9e9679a80], rfl⟩,
  ⟨[0xb756d548a7c1fc31, 0x91a8ff87ec937a72, 0xc052832f337e9900, 0x0529844a975226c0], rfl⟩,
  ⟨[0xd6bd6219ea723ea7, 0xb15ef75a47a73dbc, 0xce0d24f3bcdba423, 0x00f2c9c00b75da95], rfl⟩,
  ⟨[0x8839b8e43934561b, 0xeed5c479997614af, 0x8e13af4ce37ec975, 0x1c11b1381a0da7d1], rfl⟩,
  ⟨[0xf38903221b52a70d, 0x57941bad5616f0b4, 0x79e0e60ac24d695a, 0x28196a6e4dc51202], rfl⟩,
  ⟨[0x064ebe0c3dd24eb6, 0x3802fd84feb04f9d, 0x86b2d2b0907fa843, 0x2c574ff686c617aa], rfl⟩,
  ⟨[0x4350bfc9d26b3c37, 0x21c07f7c582555a7, 0xc26f0a1a39e61d98, 0x23e04b5b20773885], rfl⟩,
  ⟨[0x9ecdf0801c4960f1, 0x90455ea0aa5c29bd, 0x7a4f7128a78bbda6, 0x08a72f2200068a14], rfl⟩,
  ⟨[0x8e78423055561239, 0xc68657f8b6a9b0c3, 0x3c1f30023e9a9859, 0x020a5307957c386b], rfl⟩,
  ⟨[0xc2b2ec89df413870, 0x698417646a3cbfa5, 0x85b88d3108e46241, 0x1153cf64cd3c1731], rfl⟩,
  ⟨[0xd3c742f41b1facfd, 0x48cc11f7ce5600d8, 0xd924a20425ad06ca, 0x2b92d896b64a36f0], rfl⟩,
  ⟨[0x47e3641e16232e80, 0xb5b83d38f4118ce6, 0x9c757d818e9fe957, 0x0f040021849b01ec], rfl⟩,
  ⟨[0xbf3cd76e39709602, 0xe2d93e6cf717615f, 0x4e5f8607aa4aa483, 0x1fcceb2264ae4e31], rfl⟩,
  ⟨[0xcad7b25f437a38d9, 0xf66dcd4743bd617a, 0x75627910ca985f41, 0x1c2d962253a27827], rfl⟩,
  ⟨[0x3eca0791994cce65, 0x059234b17e8476d9, 0x8403f0cd92adc262, 0x2116c5244c9f73b9], rfl⟩,
  ⟨[0x7ebcbcd0ece065e3, 0xc1a06905a0139ff9, 0xf0e0a214eafcce74, 0x102221a24bb3f1ad], rfl⟩,
  ⟨[0xc73946d2fd0793c6, 0xd684e968a7714ca9, 0x4516892656a0badd, 0x2bb1a1d769bcf7e8], rfl⟩,
  ⟨[0x6b45148d7b52e3c9, 0x030bfb6edf8c0734, 0x78374b448edd38c4, 0x05ba2d1f46a5b689], rfl⟩,
  ⟨[0x96a850062bca34d6, 0x1af76c923852014e, 0xad93ce5cfda5d027, 0x1c592caf1ab3d348], rfl⟩,
  ⟨[0xafbb1743f0bb4932, 0x6a7696e10bda8c0c, 0x07a07831609bf58e, 0x2d35e80598271115], rfl⟩,
  ⟨[0xdc24c33ffdafcabc, 0xf4dd4a38331852d4, 0x5ed1b79ac97e8d89, 0x07fcc7dca8d2fa83], rfl⟩,
  ⟨[0xe41041004d1b83f0, 0x09933bdb3497d06a, 0xa3a268100bbdd441, 0x2dacd4f6ccf638f4], rfl⟩,
  ⟨[0x41e818cce281e4e9, 0xdacb05da4c9f0b3c, 0x9c98e80797123b9e, 0x05c2785171cf9893], rfl⟩,
  ⟨[0x8bb70713661dd3ef, 0xa3219b41e1e866e4, 0x4841aeae94dbafcb, 0x1f04ab075b343c2e], rfl⟩,
  ⟨[0x09877b99da1ed4d8, 0x3e1b13bebb562ab7, 0xfd0a453abc796707, 0x1b08caf18fe542b6], rfl⟩,
  ⟨[0x8772776c35ed4ddb, 0xd1e483c46dca8f20, 0x3d6ef5b0ece3cb77, 0x04350d60ac3cdeda], rfl⟩,
  ⟨[0xd59789d52dfd828d, 0xd0d4f5c7c7c66b69, 0x4184bf91b5309734, 0x0e09dedd81137365], rfl⟩,
  ⟨[0x3c46a5ad6730c5ce, 0x5c7bd37bda525007, 0xd57d1e170a707411, 0x13e189b521197bdd], rfl⟩,
  ⟨[0xa6343ee1f304a26f, 0xca33c793d2ba7228, 0x25dad12500d4d448, 0x09cf827625852c46], rfl⟩,
  ⟨[0x797a8602c63a54d9, 0x1ac2bc433aa0e827, 0x7c3fbe7f580b7789, 0x03174635b882d894], rfl⟩,
  ⟨[0x4f16dab5318908d8, 0x618709ae9bb33e9b, 0x79f6ce9d1fcccdb9, 0x2a42c258663e5559], rfl⟩,
  ⟨[0x9352c66f8db85bed, 0xf76a6cfc91216ae2, 0xecadbbeeab6ddeba, 0x0501860d019acbef], rfl⟩,
  ⟨[0x33bbf7559b633bea, 0x59bc392c36c8c252, 0x13a0563e80b1aebc, 0x15fa97680663b761], rfl⟩,
  ⟨[0xd34b76cc7ce56662, 0x4637562052f0c797, 0x121bc99292d6f09e, 0x0a694fce552ddc2d], rfl⟩,
  ⟨[0x2c91b8df8e961db5, 0xe0847837f14b5eb8, 0xdfa9bfc0600b988a, 0x0e88c05fa2dd61ec], rfl⟩,
  ⟨[0x062b0126d1594ed2, 0xf6b8ef949360c8f3, 0x88685c33681f9b19, 0x057ca2cedc6147f2], rfl⟩,
  ⟨[0xbc4cb8237d1d6988, 0x40a88f0ac02628ed, 0x38d89898d686d929, 0x2333cd11b0515c31], rfl⟩,
  ⟨[0xb242031f673208b5, 0x144ef3dff309ec58, 0x74d56678e4dc599f, 0x2ca99301804984ef], rfl⟩,
  ⟨[0x5131dba233a4bed1, 0x8a8e1b36d8400bac, 0x21e59e8865901cd2, 0x0e5c8ec6f3fab0a5], rfl⟩,
  ⟨[0x2a4bb5fd88edc047, 0x5b86f3ebc68d0c2a, 0x54882f2a5688b04f, 0x05a94e75507cbe33], rfl⟩,
  ⟨[0x2b1caac2f8ecdb92, 0x1fc9ccb8dee0c00d, 0x132b98f93676a1fc, 0x26683390479088d2], rfl⟩,
  ⟨[0x35366d726512589d, 0x1a3e6b999132d200, 0xde087c496782aa42, 0x19bd0fcb4d53dd00], rfl⟩,
  ⟨[0x047cb750ec6c0762, 0x24d6a46e5dabb47b, 0xc919256c1ba14cab, 0x273396a78c4b62c4], rfl⟩,
  ⟨[0xf0b98c2b57687d8e, 0x80147c912063365e, 0x59b461ea91ba1607, 0x28c3fc150c32ff50], rfl⟩,
  ⟨[0xf5eccf1c3d434232, 0x473330d9dd3d1536, 0xade583c6c46d86b2, 0x2c598c961ec58e70], rfl⟩,
  ⟨[0x03b800160def6797, 0xc4cf4ab9a943177e, 0xcde7b62ac1588f3c, 0x06eecbd051cf7c34], rfl⟩,
  ⟨[0x0369b2583c6bd1fd, 0x0dbdc1a076d43177, 0xcb0dd179adcedd3d, 0x0bbe0370470abd29], rfl⟩,
  ⟨[0x7cef46f570a500c7, 0xd5c89d2b7ae0671e, 0x32a472d2e25b5d5d, 0x1819574a6430cd10], rfl⟩,
  ⟨[0x6f7de7d7f2113dc2, 0x9bad7676e26494cc, 0x59b77b7b4f7cb546, 0x2624ebdd096c1e37], rfl⟩,
  ⟨[0x11a5cdddfca66b49, 0x768bcc294debebe3, 0x852080c87fbfda18, 0x1c7d91a619b633ee], rfl⟩,
  ⟨[0xaae5e35d8145efad, 0xce1d50cae0bbe5f3, 0x36970cefb2134e9f, 0x1280d61543c46cfe], rfl⟩,
  ⟨[0xbaaef2d36b5468c6, 0x498f7feb859e85a0, 0xfbbe4f4fef131eac, 0x0b321fd2bfd3b824], rfl⟩,
  ⟨[0x73cf2dd7fb1b7a9a, 0xfa91136de4c46704, 0x7477293dd0a4ef08, 0x1b2e2f421e0c4760], rfl⟩,
  ⟨[0xb4af5805db788bf2, 0x4c06654190ce9257, 0x3c0942be862b0413, 0x19358aa7ecb1ffdc], rfl⟩,
  ⟨[0x1a5f2289be6e42d5, 0xb8558e89c40d8a7a, 0x6db403e0d417290a, 0x0df8c12d84359369], rfl⟩,
  ⟨[0x2c1623378fa50e7b, 0x334709d38676a013, 0x424966dfeb1a23e8, 0x13f728b84aee75c8], rfl⟩,
  ⟨[0x58cf088ebda25f34, 0x7a5d6a37c20a05fc, 0xc3e67e0e8ef2478f, 0x28cf15d813041154], rfl⟩,
  ⟨[0xcd9b371660e26854, 0xa798e006bde7c2a5, 0xa589cbbf8f0cde4e, 0x0cc83461e6654fc6], rfl⟩,
  ⟨[0x5aa5df881cf08b7a, 0x854536b686b10afa, 0x54fbdc7acbaf9ae0, 0x2267e5792b131883], rfl⟩,
  ⟨[0x6800c90673d40313, 0x370cc2be065355bb, 0x48b361af98b894c4, 0x1574397ef2d5da4d], rfl⟩,
  ⟨[0x980463e7193ce68c, 0xae87dc9d1a4abf45, 0x038a72f6f99cdb5e, 0x169da4f52a8f168c], rfl⟩,
  ⟨[0xc837d64534683bb9, 0xa1c5ad4757898b12, 0xc4eb6597a3d9aa3f, 0x10551f64e930629a], rfl⟩,
  ⟨[0xc276f1f23fa3dfda, 0x07be179d0f4e390f, 0xef2cc368f6a7932d, 0x169888fd256ea6c8], rfl⟩,
  ⟨[0x0933f9e69fdb4920, 0x757798d2cb552ac2, 0x44617531aff8a6e8, 0x1c88dc66ae439dee], rfl⟩,
  ⟨[0x84d6faa1219d011a, 0x6c621fc73f57d413, 0x06661776bd78cbf4, 0x0d40569eac57478d], rfl⟩,
  ⟨[0x65a764cb33746490, 0xd857618b6d3d133b, 0x597d95e1bcb82d7c, 0x1999b22a5b250c0d], rfl⟩,
  ⟨[0x09913f64ed0f55eb, 0x71f4b894b1d49b95, 0xe64f2d869782046b, 0x2ac51c6d3b362aaa], rfl⟩,
  ⟨[0x4e1f1fb6f3864524, 0x183aa6e52734a295, 0x7a585dc7414a772d, 0x0e2e7f46b2e96900], rfl⟩]

def M_T3 : Vector (Vector Fr 3) 3 := #v[
  #v[⟨[0xf2e8909a56fcf3d7, 0x8019ce3145ed8c1d, 0xdda896a228616418, 0x0e5ed723ffc885e1], rfl⟩,
    ⟨[0x3158f311d66c0469, 0x9511d96f69f040a0, 0xbc6996e5b22127bf, 0x07e69e17a7c9122a], rfl⟩,
    ⟨[0x28f45876169969b0, 0x3d6ded69e30a7649, 0x79aed6124c9b23dd, 0x03cf3048ffadf517], rfl⟩],
  #v[⟨[0x670d8bd946474dd5, 0x56daed800bf07bae, 0x5c98d51ecca20e6d, 0x1a3491eda18b0028], rfl⟩,
    ⟨[0xf0193e572ba79c47, 0x5fb2e46a6ee2dac5, 0x6892f0d5b6ffb984, 0x0df1dabd49661413], rfl⟩,
    ⟨[0x3293bffccaab272d, 0x85cbae38b11c4e1f, 0x67208956c8757b3c, 0x17ca537ab6c9d981], rfl⟩],
  #v[⟨[0xcc226561d2802757, 0xfcfbd22f5bb9f4ed, 0xc8ef58acce2b8678, 0x05984bb41bae9c88], rfl⟩,
    ⟨[0x17561a5176bfeefd, 0x1cd5d7be100061af, 0x714cefb2dce7646c, 0x0043bf61f2173fe9], rfl⟩,
    ⟨[0x4c72e3c51c729128, 0xd35b9fd9170d616c, 0x4d095dc74ab700a6, 0x1282bdf76dc5d39b], rfl⟩]]

def C_T4 : List Fr := [
  ⟨[0x40e29857eccba526, 0x78b5d11f628bb63c, 0x90a91f8124d71c1d, 0x22b90b99257c701f], rfl⟩,
  ⟨[0xdda103bcd5e88168, 0xcadec275563908df, 0xcb42faa49bda666a, 0x12c1e60e14878465], rfl⟩,
  ⟨[0xe2ee3f59de1800c2, 0xc7979d60539090ba, 0xb17490108efd09c7, 0x157ae4cd6c889238], rfl⟩,
  ⟨[0x8d47060cfdf35e56, 0x24d3c6c56012e0bb, 0x23e529e2d9c7f211, 0x0ca313c0e7feeb7c], rfl⟩,
  ⟨[0x969ae5874ec24b7c, 0x178d4318d4b3aa33, 0x6c88dcc609ed64f8, 0x2f010ac693dc51cf], rfl⟩,
  ⟨[0x57fb28a4e65e43e8, 0x8879374e40bb2e20, 0x2edbd9642db3a00b, 0x03519d1e42f98e5e], rfl⟩,
  ⟨[0x6cd497820ea1bdea, 0x7547fcc6a94b2b4d, 0xd170eabdd0b9a60b, 0x2d4d4875bba571b3], rfl⟩,
  ⟨[0x6ef12da5bec195b2, 0x1949053b40632693, 0x52a07adc23aaa26c, 0x2462f2ed9e08bb84], rfl⟩,
  ⟨[0x86b215d7eed56c26, 0x8e8a775ab44e8536, 0x4b28315db24328ac, 0x2284e6859b91a22b], rfl⟩,
  ⟨[0x24435d7bbcecf683, 0x30558031784b101a, 0x8152ba72043ca93a, 0x2ef0fea092a1bf2f], rfl⟩,
  ⟨[0x31f7ebe8ea71df23, 0x5a40c44d8b396ad0, 0x12103e68c9964844, 0x2fbf0a0711796f09], rfl⟩,
  ⟨[0xd171b165b9a474d2, 0xde9cc2290d05e663, 0xaaa87c63209d7a7a, 0x138033c1c13594ca], rfl⟩,
  ⟨[0x7bfd9fcbd4ed1036, 0x5d413eaa832eba40, 0xb509d471e9b81cf4, 0x1287cef711f48909], rfl⟩,
  ⟨[0xaa8460cf946b6f1f, 0xd383ed881df9301d, 0x13dab19464f23a61, 0x03edc8f24d94f496], rfl⟩,
  ⟨[0x8fb0a2baec4a0545, 0x62950a986fa7e269, 0x8b2e63ef08420ccb, 0x24357c1c0ff8ad46], rfl⟩,
  ⟨[0xebc3984647d708de, 0xfa8876a528054f45, 0x529aa21b353025ae, 0x11e5fb7b548a5daa], rfl⟩,
  ⟨[0x1c447b0131825829, 0x6eea85c396cfd279, 0x906fa66e44792b70, 0x0f417b2b1192fc58], rfl⟩,
  ⟨[0x893dc44ff4ab8c3d, 0xdc5162ae7480b4d7, 0xd2d2263cef2ce577, 0x2bff5bd4cf84da5b], rfl⟩,
  ⟨[0xb77ac980d5b4b49b, 0x333a038690498325, 0x7d075bd47648701e, 0x14e2b4d3be83b2ac], rfl⟩,
  ⟨[0x529b26c9e1e7fee7, 0xe3b9ce82471f6c16, 0x7b784e18fc148e9a, 0x0af58ae3a7d121ad], rfl⟩,
  ⟨[0xf8d1c651163db662, 0x1e3bceb597676b5a, 0x2e280d1a469bd269, 0x1cc9d2eaf4da683b], rfl⟩,
  ⟨[0x284f1e6a5e8c3243, 0xdf6e2c5fa443c438, 0xa141ac6c13990c9c, 0x2406d65ed9963ebf], rfl⟩,
  ⟨[0x833da6aed5e8b643, 0xf6e1ac68d94bbf99, 0x92e1ab49bac7591f, 0x1f14ec7cf779855e], rfl⟩,
  ⟨[0x1f360ba6b2dbe89c, 0x39a6bfcefa7aa570, 0x7f9114a8abd3c437, 0x241559c0a38ff005], rfl⟩,
  ⟨[0x82f0f015e32b0fa5, 0x15b14571a9827bdf, 0xb77fbead604b82fb, 0x084368258f1bd0dd], rfl⟩,
  ⟨[0x6e0151e98341eaab, 0x347e8c0f39d2ae2b, 0x2f6a4f01fd8e7354, 0x1224728eae4780c7], rfl⟩,
  ⟨[0xa64a59e07277da93, 0xec9ffe497e750319, 0xf8de0d292fd81230, 0x200ba0070e4cf7e7], rfl⟩,
  ⟨[0x3eee8ca147f74c1e, 0xb459e1c13d394847, 0xad3a506f72dfc6e9, 0x0024a1a4a98cdf30], rfl⟩,
  ⟨[0x4677744f22ba290c, 0x9665c3069828d067, 0x47a5ab4a08482095, 0x050856d34a7b53a1], rfl⟩,
  ⟨[0xe9ac990036447fd5, 0x67e1d967ff728f98, 0x520db222d8f9b85b, 0x300d753949da28d0], rfl⟩,
  ⟨[0xe0a4d3db3031c219, 0xbdfc328b9599d375, 0x11f23cd7fe507de4, 0x1bf0b2f3b0ae16c8], rfl⟩,
  ⟨[0x18018546eeba2623, 0x1de71123707f1b9c, 0x7f6c0e2ad000f8e9, 0x28f46b322d82057f], rfl⟩,
  ⟨[0x3ac593da4e5db6eb, 0x3ff4bba0193a3b2d, 0xe0ad26ec69346ef2, 0x24849ad2c138914e], rfl⟩,
  ⟨[0xa68ceacc9a188251, 0x905a4a607ab50758, 0xdeba6d539f998afa, 0x1fff49f7df96654f], rfl⟩,
  ⟨[0xc067c30e7cc3a431, 0x34d758f9cd522f83, 0x3435beccd217edeb, 0x2a89e5139fbdf039], rfl⟩,
  ⟨[0xd5a6847c60a8f7cc, 0xd5aff503c7ba7883, 0x8b2bfd2ad28ddd20, 0x101835888a279fc0], rfl⟩,
  ⟨[0x50fa7503e3eb3735, 0xd8495c79cd5e9211, 0x7b7e2a5040c3544b, 0x197e6d90a94415a4], rfl⟩,
  ⟨[0x6ea1d22532ef2471, 0x4e96177082af0ac7, 0xed2f1dfb1189f2bb, 0x27fbb36a7bd9b353], rfl⟩,
  ⟨[0xa7ee25387ddb3c34, 0xf30145444d0fe612, 0x9c0473e043c5762b, 0x2bfa2b7461fc9c12], rfl⟩,
  ⟨[0xe74c0280a8d7a2d8, 0x15b2fc08d1baac9f, 0x7ef491cb5fda8359, 0x2622426d179ee045], rfl⟩,
  ⟨[0xfeea8798b783f986, 0x21f8b55837df791c, 0x4715c04841f1f926, 0x100ebb18ec5c3f93], rfl⟩,
  ⟨[0x122aa722f6947206, 0x522b121946ac0fee, 0x45b9250f69dac1c0, 0x25293cd27572f636], rfl⟩,
  ⟨[0x936f54ff136b08ab, 0x700dd002430020cc, 0xd06242f794739877, 0x2268c9c162417cab], rfl⟩,
  ⟨[0x1c9b445dd0a2241a, 0xc11cb47b21df29cd, 0xf7a492c3594f0f09, 0x034b38a7146edc66], rfl⟩,
  ⟨[0x1dfe4ac0183b8133, 0x1ef0319b13fb779a, 0x11dbf892ab5f926e, 0x17a856c53659a7ee], rfl⟩,
  ⟨[0x059e222bcd5307a6, 0xccfaf000d2effb7c, 0x1fd59fef9a8cf932, 0x0c4ce24e93909eae], rfl⟩,
  ⟨[0x42d0cafee2301d0e, 0x79696ca22bdcb93f, 0x5bacb0d63592018b, 0x29294687e7715542], rfl⟩,
  ⟨[0x42a5414804c7099b, 0x6fe76c6243e5c38a, 0x254493c8af4e6367, 0x1e3fcd8156bc983d], rfl⟩,
  ⟨[0xa7ff7255f2412486, 0x7501ca14401795c0, 0x2d0e3a0db6e4b1ff, 0x0096d162a3cc320f], rfl⟩,
  ⟨[0x789c20e48b1125f9, 0x528ce70d5612a45c, 0x8d645f61a75e2b38, 0x26549dc15b1fa715], rfl⟩,
  ⟨[0x775b5e0fba5758e9, 0xd39a069c41c98c95, 0x68a784316ed9fd47, 0x2dd54f4070bcfbe6], rfl⟩,
  ⟨[0x9d57dffcd1ba98ba, 0x2554bc6bf0d32b4f, 0xfaa1a29bff5eaacc, 0x1bf848fcc8ea6c31], rfl⟩,
  ⟨[0x3264c88684b1bcb6, 0xb5e9ff4335f99477, 0x81aca7593bdc6348, 0x1a6338f428a0b816], rfl⟩,
  ⟨[0x24779cc69cba1dea, 0x308776f8218f1be6, 0x3a9e52d12b3f619e, 0x06d8d604ce3e2de3], rfl⟩,
  ⟨[0xc7b00cf37e64dc49, 0x06d1c1802949bc23, 0xfd608a1fa1b25168, 0x22ebae49ba188f7a], rfl⟩,
  ⟨[0xca1469d4458d8a3d, 0x7623fb53afb084b6, 0xa0abc7e8d556d8f0, 0x2a8b5c3b5f3dfadf], rfl⟩,
  ⟨[0x33f5eadd9c1595c3, 0x54d6810e1d084193, 0xa13eb5c950c2db99, 0x1ac1693fb6209dfc], rfl⟩,
  ⟨[0x57b804a8493ffadb, 0xf4ecda7bda07b05e, 0x365ad26d1dde9556, 0x26840fe4f165a935], rfl⟩,
  ⟨[0xcb958721444341c1, 0xd202fc009bbb1137, 0xe10a117befbfbaef, 0x2fefe67ccff0718b], rfl⟩,
  ⟨[0x57166a5f56a5da25, 0x9651ac4d559f2de5, 0xe0a3ce57440d7536, 0x1d7d8da39c2e8df9], rfl⟩,
  ⟨[0x955694cf7e751759, 0x1f19c299b2bf9669, 0x891a562d7d697b72, 0x25b1eb3a2c62c131], rfl⟩,
  ⟨[0x27d15e03d244680e, 0x52a139938503b16b, 0xa60293987e1780d7, 0x27bdf8da7f79736c], rfl⟩,
  ⟨[0x116f555634550fcd, 0x3df9127a2fff7266, 0xf3cd0bf9d381aa33, 0x16c19d6f034f31b9], rfl⟩,
  ⟨[0x66d80999699047ae, 0xd3be6bda729fbceb, 0xcfabbd2afaf882be, 0x05b5d05f43fd6e3f], rfl⟩,
  ⟨[0x2c74114e481ddafa, 0x807434126e9f472b, 0xab570928cd20418a, 0x283d4a89a200a5af], rfl⟩,
  ⟨[0xd411d7242d41f6b9, 0x2633b38dce58b2a3, 0xb88e71e3b9f250f6, 0x1fd33b9c3927530c], rfl⟩,
  ⟨[0x97b472e62acef0f6, 0x14790dc3fcd93bbc, 0x5400b0481e349424, 0x2ceaf69d01ac2e60], rfl⟩,
  ⟨[0x668c4cd514449780, 0x43c5c8d06641b850, 0x4f75ba88b2b749e2, 0x267a187cac4732f2], rfl⟩,
  ⟨[0xb085fdc4f9a8fb0b, 0x71be2e0129e44e36, 0xe6b0eeb850b499a4, 0x02b354c2103cddba], rfl⟩,
  ⟨[0x0597e2d67467dcbf, 0xfb80c331cfc45fb9, 0xdac61e4a03d6a081, 0x1a11b729bcdb094a], rfl⟩,
  ⟨[0xf3fee4e36f25bfbd, 0x2e1ebc2bb09c65b3, 0xe2e0496cea732590, 0x0880a9b301012352], rfl⟩,
  ⟨[0x71df5a89af984d00, 0x7edb46887d56dd30, 0xec05215acaf42515, 0x18ff6fdc4fcf3d35], rfl⟩,
  ⟨[0xd452149f1a7623ba, 0x13d73472905865d9, 0x68860941a82dff72, 0x00f33f4676757a07], rfl⟩,
  ⟨[0x0e60a44a6d294f41, 0x03b13324ddc4baa0, 0x4c7ce58cc39ab341, 0x139be6cb2abe19c0], rfl⟩,
  ⟨[0x9ee46be37fa5c783, 0x4b80d6e92fa0605d, 0xe18d39eaa0b58710, 0x019935cf03fe6d3b], rfl⟩,
  ⟨[0xa11eecbd6f646bef, 0xdf805be13d0c2ba1, 0xb1843fb18f8d6723, 0x0ecac0e06c90fbd4], rfl⟩,
  ⟨[0x20ca3789db7f08aa, 0x8d4280081bb2f0df, 0x37f8a0a772d173e5, 0x2704fea2f81ae93b], rfl⟩,
  ⟨[0x0b57a210d5ab61aa, 0xb5bcedca8189a1ea, 0x1cdbbf1ab293e0ac, 0x100b4344f9ed48ae], rfl⟩,
  ⟨[0x907e5f4a9c057fc4, 0x575a1e1729d2396b, 0x2f81eb61b02a0d47, 0x201c9d0d354d25f3], rfl⟩,
  ⟨[0x6e0d1e92b19775e8, 0x1b0ff212c85487ae, 0x77fa05e5ed730bb5, 0x0da570e83ab6b8d0], rfl⟩,
  ⟨[0xe33228d2d96b8f30, 0xb89a3bb8fb9be93a, 0x35e9eca0bee565b1, 0x273df6b0ae156020], rfl⟩,
  ⟨[0xa436a2acdb5ac551, 0x8514ac3b41c606e4, 0xc28036d7cdf04c60, 0x1ea071117eb66e66], rfl⟩,
  ⟨[0x6126235d108821f4, 0x4a7765cfee75f731, 0x743ed0ff07674e14, 0x05925bb80a3cc48c], rfl⟩,
  ⟨[0x7a92010e5b2e74a1, 0xfee649f03b0684db, 0x7aa7ccf81a3caab2, 0x23720c2cfdfbc79d], rfl⟩,
  ⟨[0x460a85496e304e37, 0xdd8f527562040055, 0x40a70979fd5a7579, 0x1f03fbf1087a3e1c], rfl⟩,
  ⟨[0x0b43e0bf81c186ed, 0x47ce7c0961079afb, 0xb9f3357e2e55217d, 0x17e4fd8d6775a696], rfl⟩,
  ⟨[0xb74d133c633b1599, 0x4bf76b0fba2d94e2, 0xfec7cce4c5cd67f8, 0x183bceaeea7f1aaa], rfl⟩,
  ⟨[0x62a251f58bfc0bd8, 0xa47572f6ebc5885b, 0x37c60ff8efcf2b6d, 0x1fd8d931dc1b5f33], rfl⟩,
  ⟨[0x75b3e54a5cdaaffe, 0x7ec80dc1562dc345, 0x6a48129759a833ac, 0x2fc9974a82a07fb8], rfl⟩,
  ⟨[0xeba8b0eb2795f017, 0xdba5a4f2a2641fee, 0x5792dd59f90eb5c8, 0x252e817931c59366], rfl⟩,
  ⟨[0x6a94198f6802fc00, 0x4af4f6a80279ac2f, 0x32916f9784f358fb, 0x07d6b6afbe4419aa], rfl⟩,
  ⟨[0x5970f06a69059757, 0x7f3029c3839f1ca4, 0x07aef1800e191c11, 0x0e5b98f37b97d967], rfl⟩,
  ⟨[0xc43dff0434b7997e, 0x949a692bb405c21f, 0x710c0ad545eef327, 0x2e519c190d8ab005], rfl⟩,
  ⟨[0x743edc296a356c08, 0xbcb91cac24d38adc, 0xd9056eb212ec5c9e, 0x1010f747fd0c8463], rfl⟩,
  ⟨[0x66efcd4ce7fe3608, 0x9c833d7d7e46175a, 0x92febc92e7776bd5, 0x1787e89c1708200e], rfl⟩,
  ⟨[0x36c3d3ee449ad781, 0xe2515055c4b45997, 0x9042908f4fde7f86, 0x020f985d6e9d8d45], rfl⟩,
  ⟨[0x1dac1abd3b5a9001, 0x51dd7fe0d39a3ca3, 0x6dfa5641c34e9b8e, 0x2a761370bb92e183], rfl⟩,
  ⟨[0x8466c220c3ee6bbc, 0x236705ae2b8fcb3e, 0x1d108ea940aabccd, 0x1982ea7529643450], rfl⟩,
  ⟨[0x7fb2b43005d6931c, 0x7a4dc146052eba7e, 0xfc7bb5a058187dbe, 0x26f223404d134585], rfl⟩,
  ⟨[0x4ab70f4d178b4763, 0x8efe6ff9b4a51f59, 0xfe541d4324ef4f5c, 0x1d7e9c034dd10b4e], rfl⟩,
  ⟨[0x5eff84b09e0720dc, 0x70eb23f4336b0dd0, 0xb7b4c6dc394e9b94, 0x06313b7f836cd6f3], rfl⟩,
  ⟨[0xe1680367db603c6f, 0xec1ce37c703f167b, 0x77ed16f9edfb76ba, 0x0db1223727e76a84], rfl⟩,
  ⟨[0x4184dcb0878e2f8e, 0xcaf76e5617e33395, 0x87973035120f160a, 0x1088ea4553b89702], rfl⟩,
  ⟨[0x1c1283981a986fbb, 0xa13559c59b084bd1, 0xcc3c843e804902b9, 0x05e81d80059329d8], rfl⟩,
  ⟨[0x6df846ad0897371d, 0xa0796b766d196ddb, 0x5521d7577d5e3451, 0x0dfbed052e7b1647], rfl⟩,
  ⟨[0x9bab92f979900231, 0xcc80cfebe4155c90, 0x0e14275034b23244, 0x16f0e04a48a71270], rfl⟩,
  ⟨[0x2032deeaa7f58ce3, 0x3398acd7f11bb5b7, 0x40182bee98c7124b, 0x2908ce21f17b9dda], rfl⟩,
  ⟨[0x26b529936e4e2024, 0xa6c0ba64325b75a8, 0x1a2d97ddf301b13c, 0x0eb8d9eb541d3f8c], rfl⟩,
  ⟨[0xa10fa19afc14b912, 0xf76a7f8a6f7855a2, 0x905092133a7ac212, 0x0d224b168ea449f3], rfl⟩,
  ⟨[0x117464a50cdedc98, 0x3e406a52a4268c95, 0x0126ca9694762708, 0x17d093b8a3617092], rfl⟩,
  ⟨[0x801b01c017642829, 0xa0b3023f43cb1f10, 0xd2aed0975dcff391, 0x263dbe17b136f6ae], rfl⟩,
  ⟨[0xd9a4dc784bf504b9, 0x6b05ed147aeafcae, 0x935f49627e64a8c5, 0x05bbcffeb0b92465], rfl⟩,
  ⟨[0x1256268ad7fdb21b, 0x06aacdf761242e78, 0xe7db68bc2ae776ef, 0x1ba84a7a415606d8], rfl⟩,
  ⟨[0xfd43d0d9d099820b, 0x06077f2baed24a23, 0x11d9802b12e6a913, 0x0be45209652872c8], rfl⟩,
  ⟨[0x034a9dc5fe163ac8, 0x2d97e79a0a31c6d7, 0xffb80347a58ef610, 0x02160c48234cb223], rfl⟩,
  ⟨[0xfe607de9d92ba63b, 0x3bed90225e7f8bd9, 0x064d316348f68eda, 0x025fc12ce1fff9ed], rfl⟩,
  ⟨[0x1df0dcc9b51e7999, 0xa564d60294f84a23, 0x60b6e2ce83d15fcc, 0x19f1177d7deae419], rfl⟩,
  ⟨[0x7ecd8ffb36470bea, 0x2fb06c445557e893, 0x4cb8dfe0ee46a90d, 0x1868500123758f74], rfl⟩,
  ⟨[0x7d8e5ab384f73409, 0xb593b7b0b050cad9, 0xb1924234400dc16c, 0x283087f13259a45b], rfl⟩,
  ⟨[0x2b66c69e9a0f2bce, 0x7653879192b49538, 0xdd007e2669a05982, 0x18e2c37c3751293a], rfl⟩,
  ⟨[0x147ed539b5d85283, 0x88b8a79b91fce245, 0x58e9a33d8e8b4dc8, 0x0d9a113b51de2c8a], rfl⟩,
  ⟨[0xa086069e4d8a9fa1, 0x70af385c48320ac7, 0x8b55b8fef6099ccd, 0x2f51e57ef8952c9a], rfl⟩,
  ⟨[0x831443febe187254, 0xd8924e571f9155b4, 0x69c8fd977fc6e36c, 0x1de83d37b03ad0f9], rfl⟩,
  ⟨[0xdd4aabf7d59175b4, 0xe73df9ec4cf87ad3, 0x32e31d50df40e181, 0x1d5d9ac1044306ab], rfl⟩,
  ⟨[0xc335124cee1b0a5d, 0x3ff32a69b4482890, 0x5f29b5cf9b2492c9, 0x06af7afac9a91933], rfl⟩,
  ⟨[0x9bc610fb60af9764, 0x5ce2f2df666ca827, 0x31428fdde9eb1622, 0x24e70a88f666c829], rfl⟩,
  ⟨[0x3c70d30489532c2f, 0xdf4dab327b1eeff9, 0x6fc476f8bdd6f6b9, 0x10dabb4fbda6281b], rfl⟩,
  ⟨[0x44d6dd7a51c3a458, 0x9e0bed358e72c257, 0x5c7dd63672f8626f, 0x105d42ef5ce39fab], rfl⟩,
  ⟨[0xf382274f1863892a, 0xb5e2d928d1e734b2, 0xe7f87063e7714186, 0x2e6c5ee40605d941], rfl⟩,
  ⟨[0x92530fd8cbca66e9, 0x1b3dce1349ddc807, 0x39619225fa60bebe, 0x00bb70efa5f4f11a], rfl⟩,
  ⟨[0xa2526e6b73a9aba5, 0xfdb94d44b70a897d, 0xa2ad7a254b305224, 0x16b5ad8323ab4b5b], rfl⟩,
  ⟨[0x4a8a6f6f626ef31c, 0xe7b7b26351f6d494, 0x388f0acd4ff778f1, 0x2b4ec7658e75beb4], rfl⟩,
  ⟨[0xf21495f95224c9bc, 0x6ee58caf4ffade1e, 0xd69a41b9de6394e4, 0x1ba85426f3beb860], rfl⟩,
  ⟨[0x9a468233f3361de7, 0x0e68d30254540a8f, 0xb65c03e02881c652, 0x09845abf4c947294], rfl⟩,
  ⟨[0xb8c95930f8b1667c, 0xec0a3b3d34894bc5, 0x6f89407634760ab5, 0x1fd6752701d61fa0], rfl⟩,
  ⟨[0x60c0d62da39724a8, 0x51660377a910681a, 0xa62c8a24dc74501b, 0x26858b8c95ff42fb], rfl⟩,
  ⟨[0x146b20091a89f67f, 0xde82f27aeedb31eb, 0x9d7e97860dfd065b, 0x163fab8d2f843c1d], rfl⟩,
  ⟨[0x667d67c7962e3613, 0xe3e056caed1a2e8a, 0x2668622ab832a037, 0x163413785dae738f], rfl⟩,
  ⟨[0xbd2f11c7611b8323, 0xd560a347ad41ae3a, 0xeeb481f7ca7b46f0, 0x093037838049b5ab], rfl⟩,
  ⟨[0xd6679340ec154896, 0xc46be00a1c338c96, 0xc70f07c89ba92315, 0x17a464bf902d0a7f], rfl⟩,
  ⟨[0x8e76b4adf7810eb5, 0x8351475eec8ef140, 0x339230e70c331053, 0x160c7e1895d64ca1], rfl⟩,
  ⟨[0xb4d86bad828fb23c, 0x75b6e8147b1e4872, 0xd5e02e89d97e3c63, 0x16632423973b38c7], rfl⟩,
  ⟨[0xe81a6d943d383005, 0xb517a6ab182a4151, 0x50ad4cced88806ff, 0x2526f4db0ec6553f], rfl⟩,
  ⟨[0x979978adee93c1f6, 0x3250b54516534693, 0x0e25170062bc549c, 0x01dd58d4d255ed50], rfl⟩,
  ⟨[0x3e2a93c501570f0f, 0x3a2c2f39c6192691, 0x4bd50b1cc96208b6, 0x09ca9c6a1a661b65], rfl⟩,
  ⟨[0x0fd90ff4a02f8476, 0xe8dc15488aa15682, 0xce574ea4c3888596, 0x17365f9d339d403f], rfl⟩,
  ⟨[0xe1288b51d12050ad, 0x651365d3efb1512c, 0xbe6014fc6df33a53, 0x19507fe7c01c0bcf], rfl⟩,
  ⟨[0x3dd4b6f3971de823, 0xb484480b0ce78321, 0x373c8c22768cca36, 0x17525880874646dc], rfl⟩,
  ⟨[0x68dd6821a0f54491, 0x652d7fd195e356df, 0xf455e22a567196b5, 0x067807ca5211c77f], rfl⟩,
  ⟨[0xec6697515316260d, 0x0e2c431cc0946c37, 0x068f85458efa7954, 0x1cc36cc242f72a89], rfl⟩,
  ⟨[0x61a7290860189ed1, 0x9ba99004d5ce1f03, 0x5104e651295eb3f7, 0x20b9ad7bd168d4e0], rfl⟩,
  ⟨[0x2ab32d7082d964f5, 0xe51899b22b0a6055, 0x46827a7d3485005b, 0x199e3e2a5ed2a04e], rfl⟩,
  ⟨[0xe6263c938ca24f78, 0xd9e7996e78cccd8c, 0xaacc2f02d0b2a3c9, 0x1b78c3b0e080a092], rfl⟩,
  ⟨[0x5d66a561a72d371a, 0xf60042c903a08f6d, 0xd5bb7dd4fd7fdf87, 0x0b96896c752172a6], rfl⟩,
  ⟨[0xbf06388854608359, 0xde2af4866ae71888, 0x27abd2c795b125ee, 0x14b8105179e71c9b], rfl⟩,
  ⟨[0x84d23eddfddb3cef, 0xbde22f49c46046b6, 0x35e3758a134822a0, 0x2f529b7764a414f0], rfl⟩,
  ⟨[0x56ff193760840b76, 0xf24934593a527dfe, 0xfb544530fc4a024a, 0x25736c030637c884], rfl⟩,
  ⟨[0x8c4ad64ca93ade0e, 0xc5f7ac6242ef21c2, 0xbef611c87d3ecad4, 0x253d3c65cd58044a], rfl⟩,
  ⟨[0x6144cd25837f0e4c, 0x9a1c9cb221d87a2a, 0x3f5979c89a610541, 0x11196d97894f9837], rfl⟩,
  ⟨[0xd14456aa185a9650, 0x0145b8eb3d85d370, 0x2efcfdb4f6e72543, 0x0294249ef94e1db8], rfl⟩,
  ⟨[0x671827bf8917c0f9, 0x5b86025369e6b69d, 0x19d3639730deb86a, 0x1934196b67f34e4c], rfl⟩,
  ⟨[0xa962783bcdd97138, 0xc528d85220dc358a, 0x2e1585818ef2aa72, 0x2d078c7771e4dd41], rfl⟩,
  ⟨[0x96d0b2add8b35089, 0x7887575eb5cfd36a, 0x9d8173d33cb98f58, 0x28011bf2ab562e65], rfl⟩,
  ⟨[0xf1e5c4e98612bcb8, 0xb9554806fbb61763, 0x097e746598f8b3ba, 0x1d31df8587ea2428], rfl⟩,
  ⟨[0xdf545ca231cf854d, 0x281896bc314064e0, 0x9477d091490f3e78, 0x00e73b85a66b8d24], rfl⟩,
  ⟨[0xb4d7c16cf401b088, 0x83bfceec36e1ac56, 0x3bffe8faeec959c2, 0x1b97eb9cfcfdcb87], rfl⟩,
  ⟨[0x4c8e32d0177c5a0e, 0x04844a3a5b5551dc, 0x2f5e23a629c3d9ca, 0x21faaaed0c4f27ce], rfl⟩,
  ⟨[0x0f87127a80a4268f, 0x3f822dbfe6a8e09b, 0x2922afe764d3fd8a, 0x300438bf20c2064f], rfl⟩,
  ⟨[0x271ed8b378bdccb1, 0xcb0e116361cee0f7, 0x5c7b19803a122740, 0x0dee59bea749473b], rfl⟩,
  ⟨[0x056ac2448e0c717d, 0x676f5949b2d20f95, 0x9d2ea637dab53c33, 0x206dbc64092a66db], rfl⟩,
  ⟨[0x2caf7db6d65e424c, 0x31a422f542d69836, 0xed0f5a79bdc18e52, 0x07698445d45687a0], rfl⟩,
  ⟨[0xbb5847440340f148, 0x51ae65088a72b07f, 0x532d3b259ed44ecb, 0x22c9e2be1e5b6c55], rfl⟩,
  ⟨[0x8b11bd1f7fc3f9d8, 0x857df3396475a639, 0x614af4806a50f861, 0x0c62cde32aef1dd4], rfl⟩,
  ⟨[0x50faebac3d8ec827, 0x0728f280fcc21a93, 0xdfb078b375877d8d, 0x1aa850fcdafec702], rfl⟩,
  ⟨[0xa08c6f37a78a29af, 0xcb79f81c2ff2877c, 0xfef3cbd169836ba3, 0x1e67ae3bb879b64d], rfl⟩,
  ⟨[0x24d8a59d45fa4168, 0x70e1f10214f0473b, 0xbb8fb1aeae5bbff7, 0x0e04752ec3d334b3], rfl⟩,
  ⟨[0xdbfd58d72c50186d, 0xd5c3514ca425a6db, 0xcad0fadf2d85bb61, 0x1813b5e7bb6af0e9], rfl⟩,
  ⟨[0x10a59479ce4c5045, 0xc8e8485c5f43470e, 0x637d5a9cb79f888a, 0x25cc7baf1dd457cb], rfl⟩,
  ⟨[0xa9aeb1d22e42a348, 0x4104562fa8d46ddd, 0x5405b9d3be418785, 0x02497f892db2eee4], rfl⟩,
  ⟨[0x2371c525915188a0, 0xd0ebabdcb09f27f6, 0x98bdc587a4509f32, 0x297e85ff07f576d9], rfl⟩,
  ⟨[0x2f481080398f4ff9, 0xd9663e11821d8f32, 0x12e4fef28b6ca141, 0x066ac523b87243a5], rfl⟩,
  ⟨[0x48e624147a4ca810, 0x627a47f9a871a1d7, 0xebc31b190a00a4cc, 0x19c7bbcc6a4d3a87], rfl⟩,
  ⟨[0x6e71424a2ad865f0, 0xf16f4d7e7fc84654, 0xa95bb0b3d19d9ca8, 0x03fc4aa5db1e7daf], rfl⟩,
  ⟨[0x064e3ea36344a728, 0xb37a8d3ee1ea3581, 0xca746178eeec669f, 0x27a30712391b3e5d], rfl⟩,
  ⟨[0xdd3ed4716a1c3fd0, 0x79edcd0fd6495aaa, 0x5200966d3eacb648, 0x07f1ce6304822a54], rfl⟩,
  ⟨[0xc809b41cdace1623, 0x7a33a604d367bfe3, 0x27797cd40951477a, 0x0b075dc4f543cbd1], rfl⟩,
  ⟨[0x262c515a6cecd4d8, 0x6130235443ad5d7f, 0x9aa8f881e1999eff, 0x1a42229d5c044403], rfl⟩,
  ⟨[0xd475e0dc22f987e0, 0xfa54dc5b2fdcb996, 0x5ae38b138d578ffa, 0x2940c682acf88df5], rfl⟩,
  ⟨[0x118562b24a46cdfb, 0x2f75c498d6b8823b, 0x843d2e0d74fe6032, 0x27986838de90e9a2], rfl⟩,
  ⟨[0x947e1fff0f48a70b, 0x52688f33c2ff7dfd, 0xd47d9a0ca998f361, 0x2c292d440e0ae012], rfl⟩,
  ⟨[0x06e476f5923f2726, 0xe6595a037d9cc616, 0x076915d7cb8f06fe, 0x1e679943e405e672], rfl⟩,
  ⟨[0x24229b88e9f72cb4, 0xd9873103e3bc8100, 0xe8a734cc6c50d550, 0x16caaeddb4165727], rfl⟩,
  ⟨[0x4f1ca735f72d519e, 0x70e37623856c45fb, 0x472763041429adbc, 0x25ea6dc7946272ef], rfl⟩,
  ⟨[0x8146a418c3a184d2, 0x88cdf8dbb2d11d5f, 0x4f9971bb5558fcb4, 0x1adf59e78604ba46], rfl⟩,
  ⟨[0xa13ec3e625af38ba, 0xe4f205e60c8ec7b2, 0x6eac32334fb7a468, 0x27b2b0aab4f6514a], rfl⟩,
  ⟨[0x9c5f28e753433c26, 0x113aac989d3047ae, 0xb736a85ebf28d166, 0x0d74e61b07d3ad7e], rfl⟩,
  ⟨[0xf1d1269cfc2e7c5a, 0xb0e9d9ab49677167, 0xd0a084d47ea1dc50, 0x06853a10d0d9c0d0], rfl⟩,
  ⟨[0x23b52007844dbb88, 0x95e3bffedc5c5dd5, 0x6ef8cf7dee53eb28, 0x20b445fccd4abf08], rfl⟩,
  ⟨[0x7c6bc903d2070c89, 0xd962817946105e6b, 0xfd50354547caa058, 0x2db4d424372c0d81], rfl⟩,
  ⟨[0x65cd36f7d03ca08b, 0xb3dafd94e0db95df, 0xb06c88a7f154b16b, 0x1d38376208cdf0f6], rfl⟩,
  ⟨[0x1d5771152bea8cd5, 0x055a008a0fad7acb, 0x716692892364d1ad, 0x031b484482b3898c], rfl⟩,
  ⟨[0xaa06d9de7526e008, 0x8613ed97893eeb9e, 0x2c5abd526ede31bd, 0x225e893c3fdbb992], rfl⟩,
  ⟨[0x56b5042afe4f2662, 0xca2c6637fb24d7f0, 0xb85752e5f7c2f2b7, 0x2b177d825c1ac151], rfl⟩,
  ⟨[0xf9545f2f50cad376, 0x7c775ebdac9f6801, 0x4420fa082207d9f4, 0x1ced167c26db8cd1], rfl⟩,
  ⟨[0x7192a56206a2f520, 0xbfd4804b6f0835e5, 0x340d1a4123050bef, 0x1fbda6eb83faf80b], rfl⟩,
  ⟨[0xa6a697bd73602d88, 0x1b46f18d21d3818d, 0xc4992ecf34eac00c, 0x0368cbedd4edd2a1], rfl⟩,
  ⟨[0x562c3049163cb5b3, 0x212be8682e88c4ba, 0x80de222519d49f28, 0x26f3c1852983a311], rfl⟩,
  ⟨[0xad3e474fa50ecef6, 0xf574c8f9ad01ff72, 0x309a3fac8f081188, 0x0f501edfd6afc296], rfl⟩,
  ⟨[0x06f5dd9674825210, 0x32f5eacb3348aa70, 0xdad574de82785351, 0x162044e689925d91], rfl⟩,
  ⟨[0xdfb894b0f8af8e01, 0x4a055857c08c34fb, 0x4962d001dffec0f4, 0x09fd178acb519c84], rfl⟩,
  ⟨[0x5785198dd2c07bfc, 0x2857e45dc96f9735, 0x483a11dbe85cd7f8, 0x04b11d3670adc4ce], rfl⟩,
  ⟨[0x71bb7258772e3f06, 0x65c0369e85c66e98, 0x666b9b89e0d2aeb9, 0x212695ef8d051305], rfl⟩,
  ⟨[0x8a5849b671510c9c, 0xedb281f07227786b, 0x23908c4bb3e6ae92, 0x0886de4a9efe13df], rfl⟩,
  ⟨[0x5f72f14df6c576f1, 0x084eaf309979e0d1, 0x028422a851767e60, 0x2f8a764139c3b57f], rfl⟩,
  ⟨[0xab53676186d4f463, 0x70069e50c2274281, 0x02bee7c120a9a6a6, 0x2704dd8d6700b893], rfl⟩,
  ⟨[0xe78d93c4f4455718, 0xe4e080bbe606c47a, 0xc79b27129a052ac9, 0x2363d5a69ab69f05], rfl⟩,
  ⟨[0xb30ed22502385858, 0xd17b7ff2e9572b3b, 0x18f51dcbe27232b6, 0x009d5a8be5c21709], rfl⟩,
  ⟨[0x852aff9a40c1d0e1, 0xf9424d6262de511b, 0xcef6cf901c4340a2, 0x0a27bd434d1e8ee3], rfl⟩,
  ⟨[0x4a7de9a21243f6c7, 0x92583d6684220a28, 0x3eff7a7f335d8c56, 0x2d3c178cb59087fd], rfl⟩,
  ⟨[0xec38f3f10804ff1b, 0x27c2b2def899d460, 0x462cf1ca34a1f056, 0x12bacdf20485d681], rfl⟩,
  ⟨[0x0fbf53da39b68907, 0xbb19b1a015ac2b28, 0x0dbba45ab80287f5, 0x089a3067c21545ac], rfl⟩,
  ⟨[0x2e5f73a6a827cd7d, 0xb16e9064002ec97a, 0x41818dcb4f0c0dfc, 0x241c10a0a5e62305], rfl⟩,
  ⟨[0x54276ad3606c689e, 0xeb22529803cb4714, 0x6de6ab8df1c07d9c, 0x095e9babf1cf37aa], rfl⟩,
  ⟨[0x8b716aa364147ea2, 0x045f07a022e97de1, 0xe9308a9514ed9a49, 0x2d5eae853f9bdd40], rfl⟩,
  ⟨[0x16f5c213efc97f18, 0x8365a12aa2887d11, 0xe65dfeef9ba9d743, 0x140a73d75e29db16], rfl⟩,
  ⟨[0xc247ac4364828aed, 0x64cdd086d0facb57, 0xb8ee706558d1be74, 0x0872eeff92dd9267], rfl⟩,
  ⟨[0x5f0fe25f78229b78, 0xd49ec2c3be8ea7cd, 0xf26d6f41e8b78bae, 0x13d232f3a2f1a390], rfl⟩,
  ⟨[0x6030f24e3cff157a, 0x3e0a538fe0bba63f, 0xfa54c6c88b738623, 0x016bf25300f2f69c], rfl⟩,
  ⟨[0x14d85e8df9ccf27d, 0xeee670723c3a8188, 0x711fc54af7ae23af, 0x23b09c9376ac072c], rfl⟩,
  ⟨[0x4484ac24c6fe8fb5, 0xaef8dd48af2202ee, 0xcfd24e2e1e259f70, 0x1e70df590d8b27d4], rfl⟩,
  ⟨[0x4d9b739ec82f7a2d, 0x8c86c40aa6e8d6c7, 0x7066937404caad4f, 0x28305a578b1549cf], rfl⟩,
  ⟨[0x5c10457c8e634bf1, 0x4d3056587102511c, 0xc58960ddcc7317df, 0x0ab592a418d120a6], rfl⟩,
  ⟨[0x3a4fa2ee5cd4e901, 0x1fad0396381b4b45, 0xa1a216c4bf898888, 0x1888054e81e2ddac], rfl⟩,
  ⟨[0x01c084b6f0df2c28, 0xc90848506ce269fe, 0xc284f97a839801a6, 0x23f05ed0f47ba81e], rfl⟩,
  ⟨[0x274ba4ee4b493f4b, 0x206288ade6d5e2ba, 0x6847e58f1c3734f2, 0x16925c4877c3ee38], rfl⟩,
  ⟨[0x17b70ed31e8cd819, 0xa35af94b37ac28c8, 0x209fbb2f209320cb, 0x11b9a36bd80295e9], rfl⟩,
  ⟨[0xe132a14eed063f3d, 0x6c0371e40b6b8f71, 0x997a9833d4d77a76, 0x2c4d3110e49200ef], rfl⟩,
  ⟨[0xaf77dbf0f4e882fa, 0x581337d438f6706d, 0x1f350b68eda6847f, 0x23426a5cba59e064], rfl⟩,
  ⟨[0xd905ddc68b7bb8f0, 0x6194d3dc94d8322b, 0xbedf52823466286c, 0x2b4567b9fa227ac2], rfl⟩,
  ⟨[0x2aaca58769e6583c, 0xe7be1cabfcd27c27, 0xc884e167e69e91d2, 0x1b547d1ce6392136], rfl⟩,
  ⟨[0x7b219467382ab782, 0xd70c8b2df24334cb, 0x9cf1b13e02b67972, 0x2e7084f35b17dd17], rfl⟩,
  ⟨[0x40ab0d720c69df1d, 0xd9a490647d1bbb56, 0x109cda61a1768bf7, 0x07be33b2f7c444aa], rfl⟩,
  ⟨[0xfaa27f11d951fd73, 0xa0ebdfb5be4b2be9, 0xf48aac128824d06e, 0x163a2f397fc2c580], rfl⟩,
  ⟨[0xb84022403b0665ca, 0x8dc8d0b451da4b05, 0xa38fa09b3c7eef28, 0x22cf98676b9e54fc], rfl⟩,
  ⟨[0x50054222fdad8a3f, 0xd872d046f35f42f5, 0xe2ff644afe5d2494, 0x003ee1bd7437dadd], rfl⟩,
  ⟨[0xe5b1ed4648bba081, 0x9c7bab3ae8419a4c, 0x36b5495c7f471856, 0x06702f4862e41535], rfl⟩,
  ⟨[0xab892dcfedbee2f4, 0x8d3580b9734f7605, 0xbe7ab77561fb37d8, 0x18bc5f9a2eec6ee3], rfl⟩,
  ⟨[0x3e209b14c3b0d092, 0xb26774da542c328e, 0xcac95d3019df2c5c, 0x1385099c0f7fec62], rfl⟩,
  ⟨[0x2bc039db6718ce5c, 0xfdd2f0788d85722d, 0xa5a456e83e2efa06, 0x184d1b4f8e3759d3], rfl⟩,
  ⟨[0xd4e139a00c563bea, 0xfee50bad68ec34af, 0xbf7b9f4531f958e3, 0x124cdaa7f933dd89], rfl⟩,
  ⟨[0xc723d7f39cc6ecc2, 0xa851bf747afea447, 0x14db504403a9ba7c, 0x127614761019d477], rfl⟩,
  ⟨[0xc0d30d47bbf2488d, 0xd8f1027c2dda8335, 0xa853dc518c57dc60, 0x284405373f563d59], rfl⟩,
  ⟨[0x459b62eb3088fd48, 0x21ae32a424bd8eb6, 0x5db2e821b1c760f4, 0x084173a63034523b], rfl⟩,
  ⟨[0x5808e7afe0927ba5, 0x9a117acb61c04115, 0x79975fc2d5834662, 0x2f434e85b9b0935c], rfl⟩,
  ⟨[0x53cdc44c9841b4cc, 0x7458febc9f9ab7e1, 0x7a0071be148390d6, 0x13fe55a1079cc141], rfl⟩,
  ⟨[0xc446f1f9dc1bca8c, 0x059a569291cc9a75, 0x813cddf359f77af0, 0x0ed5034097ff57ee], rfl⟩]

def M_T4 : Vector (Vector Fr 4) 4 := #v[
  #v[⟨[0xc746d3a1ea1cc193, 0x6909fa60cbf91537, 0x5b41f9011d64f292, 0x163fd60c1936197d], rfl⟩,
    ⟨[0x0181d5313bbdbfdb, 0xe18378c86214909e, 0xcc39e35f710ea822, 0x214f5455afa43479], rfl⟩,
    ⟨[0x582d922f6dc48b16, 0x38c8cb41c45cff82, 0x7df9249ce4429252, 0x007ab9de1893f215], rfl⟩,
    ⟨[0x9cff2c0f6412a4c4, 0x30fb90c591f50925, 0x6e6ab78411b6fcb9, 0x1b77cf0ecb224202], rfl⟩],
  #v[⟨[0xc8c85e8ccec69c00, 0xbe0283254c087a25, 0xe7e873d447f84ea7, 0x006de5b38e5fd49e], rfl⟩,
    ⟨[0x437c9035a82c8a7e, 0x2cc53efa3fc81999, 0x16a3050a16ec5fef, 0x1405c2ce761b1ffe], rfl⟩,
    ⟨[0x8100aebd55865e63, 0x4efac234996ba0f3, 0xd7620cc74699967a, 0x1910150019158192], rfl⟩,
    ⟨[0x6339508f8d23fda0, 0xff4e29746759d717, 0xc9d745285d69fd3c, 0x1c752d58c2ef9d67], rfl⟩],
  #v[⟨[0xbb83fa3e0a031edf, 0xa247540e9ab2abde, 0x10ce1ad9c5a34aa0, 0x0e0d7c4459fde200], rfl⟩,
    ⟨[0x742a45e4beba79e2, 0x262159b82a5d52b2, 0x67c2c32c9a7262fb, 0x1a016e5249486d11], rfl⟩,
    ⟨[0x032ee49d3f46f8e3, 0x9581df46402300b5, 0xb073993fd3900255, 0x2ff42c980d018110], rfl⟩,
    ⟨[0xef89cf7680de46a2, 0xaf9fb3890c2afe43, 0xc6241b343d910469, 0x2906a4070cbc228f], rfl⟩],
  #v[⟨[0x37d7866bffe26d19, 0x6ced6607b03ae067, 0x68fce24891c473c7, 0x0bb889c2fd6eac56], rfl⟩,
    ⟨[0x6135f5062b5b2e93, 0x6f938788c83dcb7f, 0x4fc8df2d97896992, 0x077d3ed0c2de7b50], rfl⟩,
    ⟨[0xaafcf1bd4770a975, 0xfd91630f7b3a8546, 0x789e7c4c49ebb73c, 0x0018a0fab8043422], rfl⟩,
    ⟨[0xd2e8592dd30a25b5, 0x4f626b2e7f68559e, 0xa8ca8234e9a2e036, 0x03b26515166e9d76], rfl⟩]]

/-- The tables of width three are complete, and hold numbers of the field. -/
theorem tables_T3 : C_T3.length = (N_ROUNDS_F + N_ROUNDS_P_T3) * 3 ∧
    (∀ x ∈ C_T3, x.value < Groth16.scalarOrder) ∧
    ∀ i j : Fin 3, M_T3[i][j].value < Groth16.scalarOrder := by decide +kernel

/-- So do those of width four. -/
theorem tables_T4 : C_T4.length = (N_ROUNDS_F + N_ROUNDS_P_T4) * 4 ∧
    (∀ x ∈ C_T4, x.value < Groth16.scalarOrder) ∧
    ∀ i j : Fin 4, M_T4[i][j].value < Groth16.scalarOrder := by decide +kernel

theorem length_C_T3 : C_T3.length = (N_ROUNDS_F + N_ROUNDS_P_T3) * 3 := tables_T3.1

theorem length_C_T4 : C_T4.length = (N_ROUNDS_F + N_ROUNDS_P_T4) * 4 := tables_T4.1

theorem C_T3_lt : ∀ x ∈ C_T3, x.value < Groth16.scalarOrder := tables_T3.2.1

theorem C_T4_lt : ∀ x ∈ C_T4, x.value < Groth16.scalarOrder := tables_T4.2.1

theorem M_T3_lt : ∀ i j : Fin 3, M_T3[i][j].value < Groth16.scalarOrder := tables_T3.2.2

theorem M_T4_lt : ∀ i j : Fin 4, M_T4[i][j].value < Groth16.scalarOrder := tables_T4.2.2

end OpaqueStellar.Poseidon

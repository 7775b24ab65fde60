import Sentrix.Core.TrieKeys

/-!
Hashes known by their digests. SHA-256 and BLAKE3 are parameters; where a run is
evaluated they are the list of the digests it asks for. A list without repetitions has
no collision on its nodes, so the trie's assumptions can be checked on it.
-/
namespace SentrixCore
open MachineWords SentrixPrimitives SparseMerkle List

def word256 (n : Nat) : Bytes :=
  (leBytes 32 n).reverse

theorem length_word256 (n : Nat) : (word256 n).length = 32 := by
  rw [word256, length_reverse, length_leBytes]

theorem word256_inj {a b : Nat} (small : a < 2 ^ 256) (small' : b < 2 ^ 256)
    (same : word256 a = word256 b) : a = b :=
  @leBytes_inj 32 _ _ small small' (reverse_injective same)

/-- SHA-256 of the sentinel, then of each digest beside itself. -/
def emptyDigests : List Nat := [
 0x66687aadf862bd776c8fc18b8e9f8e20089714856ee233b3902a591d0d5f2925,
 0x12281694bbc9e33931d421d37094c1735a1b775260890dbd03d18cbee19d1bb1,
 0x76ffebd6abba9c57053267864b92ae0e93f0a75def41f15e68ec388c25c97036,
 0x156b04be6375f016e24067bef48cb7896cda270e128f9d8d353a52b096a4a771,
 0x32027f037465dc841baed955b7fb1cfc5961109bad43eb4b4c7ba311594f9975,
 0x73f1eb186e7319bee665fc9392686088fb783a2a4df8dd85f7287d7998d340a2,
 0x932782a3e24fa9276c20d4ec5a5dfe07bfd162a9d03165a2e79bd23a0fec59dc,
 0xd3808d60950f6e3703e62b589af34a28b3dfc8d5c757c1ac457be7d21ff2b851,
 0x31fc6959ef6c0ea1a10fb58415ebf4105241921526d0ed91eb1cc80309aa908d,
 0xf8d195b6eac35d06e693069cc6f8ccb0c73dfea1787656e3f04503ec7912bba0,
 0xb4fd7e6d2cacd783150bb587c113244ecafd42fc7a0fdf87fb17a9a79fdd0f22,
 0xe49336f717ab925bdcc14d7bc10c3ad50d30bfe8cb719f51ada040f833eb6681,
 0x809e92aca5a87a752eff0661aaa09015895a2d3c7a949057aacdaea692190d66,
 0xd188e8fb4e294a4534f08443debd6c252c4b9551578dee0f15f3c5ece0266931,
 0x5a3e69ad1d15d75e3564e8aa5b05f501fc69ee0ecc4549eb2beab8cb85daba37,
 0xf6db8349680243464467c334f4dd8496a24deca7c9c40f6d23583cdc36c51e90,
 0xffbaf6bec0b3705f08657b3bf1c6bc4e879d8e3ffae5f52ed760d2d2330f83fd,
 0x0d257e076ef9acb902ddf9804ed4f5d35a899561cdc3a9f99158a98b16a3013c,
 0xca33e31c235330125eb878b7bedcf09ac38b91c249d77875ee1a4e51895c0335,
 0x17b56b8be16d67947554d9356651b1dfa626635e93fef82e42964506ba90238a,
 0x8f6cf9155d943e10a0d330c2d6b1cdb038e9e278cce40ae8bcab6db32a29093e,
 0xc0242688e88a916c4d505edb899b2d0c044507a6b488226ed1b97242a28765e4,
 0x4d65534796892838be81aa20eadeb645a0f4d6c39e55db0cfef54e3ec98953c2,
 0x09b738a2f4f2d53c4d32e9f85a3e23c1b3e8fbdee969ce19c122583db80461d6,
 0xcf45dec9d4ee0f92dba5967eec57259218d7f7eee2f7b433789b72aa0269535e,
 0x2feb091ea622c48cf4bd7bedc22d2c98a112d56f48ef4a5315947c99fe145918,
 0x0f41f3cce9de180492078a841016b2653f06b83b70fe99d0f5e67c3adde80457,
 0x5c8fce687712334bbdfddb1564064ca2debce69a56bdce323689cebbaa7d9373,
 0xfa4cb701423be19c1b6525099b7a1e8e32973fc155ff1d3b6bd44bf901f322d7,
 0xa9f2131db50d622b8e7551c496048842678892ea8e784f9e4addb572c5e708e8,
 0xa5d1b9b1e8e56fe1767d3adc5f130e58ab643e3efb53c587766d3563838e4dd1,
 0x518bdd2c7803830566ef77f286413ebb2108ca2a372f669794ec6d4c9955e838,
 0x337e6a38a9782cc54886321aa02578dfce8b9d597dcc5fbefb34ba3781eb2833,
 0x6b92fc731dfe9f80733314b889ca9d28268d104fdfc2229cdcb18a67ffd9528d,
 0x3e18a38fa030528a1a566f12de914129b56ad534145b6a10e2a4e69c3a0be827,
 0xbfbda28c026ce852b0c2216f559d30ffbf88b47e1a6d3cd44fd229b5c9ade2d8,
 0x110b4d06ac62d7865dc1a3846b2680a07a8b536e4881093fc4f01218d2bdd568,
 0x52144c6e2eb2b19bce000c6f6fec98adf0d31a3052d7fc6ffdd17120cdf4e985,
 0xfeb5c3caa2984acb7d515bb77d9f6fdcc11a5be4842f7945f3fb132a142b5d26,
 0xa551dc69561ead833924ccd810f1bf2de34377dcd59a02701122b5a7f1781d90,
 0x7a64a7d13f71de4edc52fa3f1f03d2c54640d0e728b940091fd03cc13ecda4c8,
 0x05d0b0bdca61421bbb7cced564c84cc598ec7cfb365fbbf8ca2d17373e702b7a,
 0x6dc7611ae852125236a9b1d42c4f4ee6bc2fcf2c1eca36ef7a3221e1a6a66faa,
 0xb3f66cc1cf3980f596c28a2e89912a4691dd1a192caeb140f8142568e89e037b,
 0xd369254210919418fafafd7ebef1b0982638c4f785463141cef3778f6910d205,
 0x93b44fb831538b328ab1722c1c83e8af224b0d50449184534f0e6719b28833f4,
 0x1504b8d90dfb7af6f15d0b099079b8824667dc8dabe3a64c67073d643361bd61,
 0x77bf895a64ff884055134ab893da8c774b63a21e8cc699fd57a72f2857e896fe,
 0x7b1142d4e95f1b99d9d52374aaf3d8933428b20d710fa5157b38299f3c773266,
 0x0db3156d1d1b63670668bef3ede10d5726607fd6700519975b9e64b01cec2a77,
 0x8b0a98e9d7ead5ed27ffc0d68e3adcf042140a9b7e34b107711b6f2eee4ad2a0,
 0xf86a721fdc91b052b0df684154b5438b9eb314c34a842faac1917145de8050f4,
 0x1998244f6cb663e577d79702549399a357c680bf59be9a1b2dac8502fac5c06d,
 0x4aa481892bbf1c9ebb7dfc9e5bc1410e782c738e3c7426d3bb7fdac88629b9bd,
 0x8e33df60a42664a63bf503bad1cb9bade129f1289ac0c9b2338b61df0680657f,
 0xfab8dc1ce37476172c4c83f16457d16366526087762979f7f096fb9c857546be,
 0x316c29bc44056ef59b666d2881f613c71fcde13e4ee445ac35b009e1d20f000f,
 0x7dd29ca1817e0f5f188cc5fc6ed7806066c434a3096525b398333b8414e58891,
 0xdb0864883ad5b6a45af0c97aff687b5c6aa1ab5ac2f1e027fc345f018a0d6c4a,
 0x598897f6eb961e588d7b08531d568643cd6f4d7e9398a400b034b24e677b12a5,
 0xacf4282530ec08e4101bb93d894b885f5f36795eb4da348744e9e01af29de99f,
 0x6d31613c082e097613c6d4e731708a418ba5c5a3385d39950ddbb332d9620491,
 0x2da5912124ee88f951ad6904d8706e243f648b97e7d6870a6fac9bf6839053da,
 0xa7e0cc038750aae5d3c095d20e9c8587f1a865d6a9201b48f021a3d36711b930,
 0x6a8961299802904df5319b2e79c91d439b4553826ea8ac40f37398bd0e47c8c1,
 0x71679312097f480e1c6b893aa2be6270fa29c0deec42c6414d634b5f0a28435e,
 0x39699a9f48ca169efecaa4d064e66612d34d0c5832bb660c0cc0d70ec58fb043,
 0x7af4dc9e4661fdf28086f9dc76a29204ea842a5bde0f3092f88103bb5ca4375b,
 0xb7fe77e00a86bc97235fe330fddb6bf4c3ae9380706a86bcda759f609e9c1101,
 0xfec733e4690346d3ca8f9ae91f9c07e62d7d0a1f12607c94d5a46913df45314a,
 0xee8b154296abf5976bbc5914e5a59a5d9572b0fbb42bbb47ade78d319312eb69,
 0x81b0730c6167fbd378951f626f5f139e892f0f6c1d4e5f8f0f707dc8ddbe54b1,
 0xd4c2a06b8ba7232e90a49bceb5ea3995a8812e4c3795affa7379a7e4ceb35242,
 0x1f3dbb5f205f1d687b3d8ca96f7e759fbc33f36f016eb2b3672ac8c5749743c4,
 0xf9f6210e376969122dccbb012430e0596e39e4dc615040b6240dd2d542fa884a,
 0x603a6eeaa99e6e0210bbd87bbab7931debbdf8fef15e7bf6a58d7349e0e5fbe3,
 0x8c090e27169feb876c21b07be2498b7026c5a4c315719cead1d5abfa8ac42d46,
 0x348555b55d80842778160a7fc2e228d3f6b3125807898c11aebbae2ca95ff162,
 0x61d8e016d6a898c5972125b6a759ad92ec73a9e20fb2447a09217d962663e2c9,
 0x60c86a9a17dc101470ed8109224eb52e0c9b2f29f455c2c34fd329f0150298f0,
 0x472e4799c9b595a989b7c0ac554bd6968a6f9015673159191f809ee21ba814ee,
 0x2b951d5e84c0f66b697bc86175ad470522dba8b1db10940ed2349e879895ebb6,
 0xeaea67d7755072482ee77ed8f87691f63a201123f4864afecaf760b78cf0f14f,
 0x429e6d2769d73662ac14804fe5f23bdfbc8bcda93e1b0246c063343b5398fea7,
 0xc157459e0c70b4e27618864616438e5baa286ab4828704de0ab00dbc8ed04602,
 0x75d5311a9e0fe3601712e5424d40bc436b7fab68b6d276a2ee1c7c4a9d395ef2,
 0xccc4de1b41d9f576ad7c1b428e7a119844c2c5ed023830281f3f88e615502eaa,
 0x3da5cac176fc0a3b78a962b2f7318fbb6f8c02f10ff67ccec0896a1b4eb609bd,
 0x6bff71c60d03caf9fb41caa0e282feabefc6b6af69fadd7332a0c1eb7f7c1dde,
 0xd0a629c89c5a9b732bd646321ac69ef467a6ca4efd601b8213997daa0ee9bfc0,
 0xb043d3a07510f0a54bdacdf8ac6e41909ce84b5b78477faf57bc2fba66f9b8e0,
 0xbb11f43d5a56badfb266959d9cdf3ecc070bee157201442651b60bd4a5776da5,
 0xda8f262e937913e215a9972e42ac550b2be18a01e783fb24c699fdc37f9163bc,
 0x729515f71ddcbdf335c0145ef5df19a033f660798ce0816f1209463a2bd904ff,
 0x57d636e90163deee35827db0880606f5bca16a164706b4b2f8cbc5c5aa9f5d32,
 0xc741e16eff77fb4bf22ff62707d930c623039e0015fddee3c21223d5b0751959,
 0x0c5eef97c927da0ebf99a211519a28cf2a2bd61184d675d9e9999fdcc9951a52,
 0xd4cda4a984fdec321058b8c65a6ad288823ef69fcc0ced993bc780e127694df4,
 0xf7501c99c9a236f9e7ca5545d4ab36d798c082d2f1cd416bc93130cbab1df70a,
 0xd8fb118d14ac82609e000886b5cf5dcf8c57993f9cb7009d7f66fbfcbedc9848,
 0x941526c22b9a3d1ddf35177581aa0c57f9ca9cb44792c5941c9095a7f58fe5ff,
 0xe033856d6b6ad3ebfd5b23a7d4f2c0a72033cecf5a4015d226ac223e81000b09,
 0x9846e8b83f88a2e5a405ed7c5da80dea52388a0c6521be50d1e4daaa571c79b6,
 0x2c8f65d94b1c273a6fe91edd79496a36cbdbc9a01fc04f7729fba9dc32021c4b,
 0x78e4f144956a2edbc622a7a3039ee881674e81edc3812adf24bacb2b7f25e360,
 0x1523e7ab9649b3fda9dbfc05828de31661787680a1dbc1b40df1d029f9a1d7f4,
 0xba99150c4fca1f8ebbe700a2c23606e1e5dde5aad1f7d69f013b10dfc84225ae,
 0xeae387705b20ddacef857017a9538d4350cd707a44800064d1eb33c50b8c3e19,
 0x4864e671e8f1a96e323dba7998802d838fc198edabc1b59b1cce53d675621048,
 0x960dd65332c45f443e8332f88a13221ca6729072134620fdda668708a82eaee5,
 0xd83d701a77ff0be982960b0067fb437411cf19c1f0f30f43586fafe06f2073e6,
 0x73c87103fa13ad08e98931521c9694a3fc1e68345d26aea9dcb97f86b3c7de40,
 0x3bd1cbba151450485dfdfa17a0283422e60807e11a32f9c704d201780a57f6ed,
 0x530f65133bb397b200ec35ff68b0c6663eb59d8fc1632eac8cdeae3245f63402,
 0x8f78f2c9243e3642ce97eea683e4bc041dd46cae5f76855b8996a99b2194159c,
 0xb7c6af6294df608d6f495fa40ccaade04a802c25af5357035ecc02aea6dde503,
 0x35a60a7138a647571ead73012e35edbefaf507979b45a3ed0ac3cd7d1b11a6d6,
 0xffc3f155c2af6ddc6c44a437bf07b0f061f8c6e301da1d7a2e51f6178170d0d8,
 0x0c43baae34a1d02a85c23ddfb0a566d797fc553a715a597c5546e34dabe3083b,
 0x42ce000229491258b81bb36c9e3497d80aff18a83706c279b75f9c01cc57eddc,
 0x5639ab2827a31f416d4de49abadb11d353020922f28ef9e3fb97c7c887b71ef4,
 0x4c2308a45d93d162b45cfa0dbfc4157320b8f00608ae9e67d737420beb83d6a8,
 0x7bc182c2618049294bb6bf06d5ab54c0f45553df06504c056dba2a96c27b90d4,
 0x963bf85b3ff789cfdd0c414244d6f250c276924252b80399b1b722eaa54a95dc,
 0x2778a5fda22829e5a0b7b98e12ef9d6bbcc8a15ec7337842a197e2094fc5967e,
 0x7611d585cd0ac09d1d34f2b9cf3e27dd0201129ba93f1831790b6dbdd4162412,
 0x5e3061f013fd056d5b2ad7cc3c742bdd988e39d7e3e3f961c36e8f63de7ba0a2,
 0xf8268c432bfcd38185e11a616e2b51c68a0e9206a993c6d34ae8478f0845b146,
 0x71b2077a729614b2fb5c943cb6f20a15e6cfa49f6b9fc7f5a54440b015a7d894,
 0x5e73c50939adbfc70dc24149b863c1abfba18a1f2a59d2440687489d45494d32,
 0x2cddb8a2d59530c855a9430183e8dd84aaa955ad94163f1ac032693be38e37b1,
 0x0b50def9793f21db2f9b9fb20538a1c9a37908aaf89c78bfdb726201cf26f501,
 0x6413a7a05cac43b2ab9800497fe33b8dd3f4cd62d11fe87d8e6008aceb9b6b70,
 0xa63001de64076f10c50ff320a4367e4969c55ff47bddfd2a2eec7d4506dd71f7,
 0x0420fb9952fc99ba617758451fd663f6d676fc4b3ae05a27bf18cdc1da8f3f2a,
 0x17244b7609d4bd563cff48477cac832ef44aea65b6397c55c78a717603ecac63,
 0xe00d1a888000842870c8409424853c53bebc600deb8788e30be81efca5f83b72,
 0xb62879b8bd1d95b9b22232bc878d6b2cc421a1d9a291965c71a59313b7d1b89d,
 0x1c5aacd6e81b9f52502f2ba7f7a83c248cce6cb57b28102fd5e9fbf33b978c99,
 0x1f6bfda910753a78d2770b6ac1cbd34e5893d0f695ed0686cef14346d2a76473,
 0xd18fd46c423dcf28aa71bbbb766b02f1ba6c44131a0b3fe4b0021f10e702d948,
 0x1db638806e69df672d2d4bd207589d68fc048eb7c1d01acfd2e8fe73ab5e0eb8,
 0xf1baa0f312f8dd3d78320cd21d9d1818ea0f420b916832949d5c7ce1b2f81907,
 0x96a1ab228597ee41c9179c37ebffd20d9c43283b8eaa9a9a2e5b5a276e9afb05,
 0xe82640bcd212a79597ebe2ccd45f21fe16ea6ab55c85015a116e9c147249f90c,
 0x67ae82d6dbf907d3eb4dd6c49cf7dd2fa71313b73deb1a81d3ff8b3b71a2f1ee,
 0x8669889913634d43709a983d309e7ff9d030fc8c6fd7472b64feb4a72b833f88,
 0x8d43a2dd9438880e7b6b862d2ef3ec4c5cff2cd640c3fcf93b537f4850ff52ac,
 0x1f8d1a5d1adc1b19174947f8e5d77fe6c1781554fb04535ccfdd7725048aabb2,
 0x9c9332da33d89f3320086b6724a089acf72c2bc5bed14cb0b94bd6363581ddb4,
 0x2c18905a6f607c160737e47f18df8b5a6b10d57c9ccfd61ff91ad99281e62a3a,
 0xb613968f478d72408e660c10246b68b319d7e5c5753ab5a644c3e3f5259187a1,
 0x5035b0eef795f4663a048e78b96bfc00958752f4294cc7203f8cef0f33252f7a,
 0xf5de9bc9c74a6ed865a182076703626ec32dbeb27e40a89f1b2da736f9f55c0f,
 0x47e8ad58cacaeb1966eeb51b55be09076f5beeabfee1abe806eaadf6e90db926,
 0x059640732ed13079e464777cd3c3e1a1b2c8fc789f3499149d50568ff6fbe580,
 0x6b683e01c17f4dcdf7e764ea662a931027940baa950bf2cc1266de6d5dcebe9b,
 0x11a7fa35f113155288f863afb7f9e1976b30b410cd035bcfeddcbc6f0d9f8f36,
 0xe07befa53328272961203e76c429b003fa6bb01d1f3c960334b2b458bf99f742,
 0x4766897a9166a3c7900e96cb7b63dd60bab0128454ce761f249b4bb5153a45c6,
 0x03c03815f0ea6853d4975a0d1d6058bb83fc76d86cebf43b004bf94644bd48d9,
 0xe955637cc8720b1875d8cb88bb4474fe12e2e593ddca8fd7c5a935b37466cb48,
 0x90760bd7bfe2f6ad9aa9972626398e56a4ca038fac142c9da01af8d07374824b,
 0x981356161746e927a9ebc9c99ff4de2600e89a1530c9771036c9ceda764631ad,
 0x1231bb511a825129d5604555b9e2a9b7daab0068b0e12e261ff064ccbb4cd14a,
 0x161e240192cfecdb892d84bc6c26bb2ecd7f03b7c58f95b70c172433988a263f,
 0xf6d139db45448bb13075edd536ab87263c751784c4be9f6678f1a50d8d4af4a3,
 0x10b8750c1f82f7fabeb0ff420bf3e26c0daa8798447ec41c3995f8c787b9df6e,
 0x60cf6b877550cf7c9aaf4238fda747e88b092626a3d532281d33e2c989807d15,
 0x009d88e7353d04f230d57e62086f911d386a0f04f545ce9f7626cdc862028662,
 0xa5e29216c4a672e7e4baa56e2b5cedcf48db144a8a4523daee8a0455c188456a,
 0xb359c7405e92f27013ab896966c147b0de5dd1b17d98011d22c02f2f8fa0b04c,
 0xf5df7b74af3fb8ffb01a7f3b111c4eecf3f7db2564703573f4cfbc8007bca73d,
 0x56636dfb4701748c2ed534b481a5b88ed75ff67e71d0694a56c1cc06b128ed42,
 0x340b4c552a408c181b0d32e99781946795cc533965e45c0a91f84efc745302aa,
 0xd43b953a7c9e5f693343bee6f3cc962190fc8b66d1566c25c7fa982f323bad65,
 0x6af8ff829f209545ad8b221221e7a55a4a0e3dbe56c73a3c2f336eccf272a120,
 0x6417d2e9848d6ee9625ea5c6968f91ef9f7d15e0bdfa108e46dc94791ee207dd,
 0xd0d20334cc14024b3f0334637dc66842b659681e34799c89d1f22893d9735cd7,
 0xd27116645e8e9b2c91bea584a037c77750dd755dee2349e4202b70ff0f556ec6,
 0xb91b5c6b0a8f5b28751f8068bded0bbe31fba26191ddd723c96e58ec61b45b69,
 0x49679048e9c3d477f06e5e4b676a3a9bc169f74e5ed974fb35cdc3784a64619f,
 0x3c7970bc875c49c02b3e5408eae416a73cf9d8059e638db8d706e915a4dab5d9,
 0x25a54f3f172f16f12ebb9947457505e7a41d3f0e243b5c47486d462d1573859c,
 0xfc5b527b2f614a33ef2ff269b76fa6998e250adf71c00da7b4518f6f6e658f75,
 0xa2fec94680a529e49ec2866ff8fb895d458b3e80ea7591789fbf7e1c90407478,
 0x97d8ee70d283f493222b121a63c30c87833841a3a2044930e7f0c33871e345eb,
 0x14de5478b545188c4fc403e33264daefbc373cd2a00ebeb0e2938641da258c6a,
 0x7b6143aabe3f116c37d8cf6ca316c3632c011074dd72d422d77e40a34b6db58d,
 0x4d6bfc9fa22bb7b42343b29f1bf15cfe86d389312d6e23bebf574cc50a6f57d8,
 0x0d383ace8dcfdb3d9ffc0d130ceb7d6b6b9d09d2a07b47d4da0e989439b4e66f,
 0x43da60916000d6ba00c7783e340aac3021460a7920003497f5daa1b0abd6a6b3,
 0x2b9067988a5c295ee0fcc13d2c0b7ad78ebabab19ac5920b56772f4f948a5354,
 0xc4dbcffc0fc383ee887a964a69d82057eabdca8478b21f5ed111e39f9f61ab40,
 0x4d9bda0b7a971bbced0a1563df403ed0ebcc43bfa6ba03f07955d64065be5e58,
 0xc1b55fe6537fdb7ad8e4b00886f7565b8e1eb13e67fff7df67aa4b49b0d941d7,
 0xc89656afcc7907fee9107af2bf15ca6252eda4f72e48b59be32428c63bee8d8f,
 0x5c482af78621841bf47022bdaf5336678e5d52157b1dfdcb2027d661e3ababd3,
 0x0c4238a810d229ddc7adc9c0f39ac10d095c2c15841531aa996645c638193a45,
 0x2e30866abe82d47c4a4f070555301719a3b14d7958bbf6d7e4075f99a83c2108,
 0x90e301780cd87aaf0f2e898569e618985d5ecb77e3fd78f462f144ff0ffc41f5,
 0x7482dbd2334d154897a6591701cf6bec6b378d4a387849631a2402b20a649a88,
 0x1d7d77524141b118b1ec2d13c7245a3677c93578846ba9794290c435ad17e6b3,
 0xd347b90fde51c6e690417900090f62d752d2ed4d9d54701e732920c31d320c59,
 0xdb7aca5e473722ce6fcc7944c4070ab08a83f325817adf3ad57010873aa88af1,
 0xab4ccf01fd5448a48f52b31f404b68d3a4510d2d851c620e05e49ecb5d468ab0,
 0x96fbab594da3407f519682ed868dc646f29dcd5cba24c0a3c5b93cc88560577c,
 0x50e8146b395fb6c98f8da60cf0fe1a341ef3e485e2b1b4b172aeeb8cefd5ebc8,
 0xa9c72933084d3cc4722ea0f49a254a4b4baa83ee5b0447784372200d89bbeb2e,
 0x6348573a5b48002cf0ae2823045d42b4fd2924b6a328aaf68620ca84544faf9a,
 0xf852233c6ed6d8acdc189393121db84cb8105903e2f1b5e350aba0fb3ae0b8a6,
 0x7e8735442f7165a8b26dd25b01ce8e4c0508ac185cf2f9ad49380a22d9952616,
 0xda3c17b14a133be76fcf1be12f0955b752e92f72c0734f4db04095dc20444270,
 0x4f732de595f8b8e5f656d517ad9ad19ae69e80a5389a6290234af13564cd8ef1,
 0x734ef7f368675a74f68368228ba1675b9f3b8dbdadf4d0dcea032379b84d27a3,
 0xfb1a90d83e5d774b89b654f98fd408c7423df12652804df14ceea53f6b705c56,
 0xaf252642146fb616c7ca52d94528387a24bea8a385166a08ee474c052a5cdb09,
 0xd6c4e17208d0e712597771fba21f9bb8c18e02f1afe1b90875008821337d2dcc,
 0x37c073a54b2478cb8e723036bde1557d874ec37810a8c164b52f6c8c5fb7cf2c,
 0x0c750b148eac7e26cef76e1a77e03eca4856e203ed8381ef60ce2c36f15fa9a5,
 0xcc47d5c0f1c09493dd5ac17c075e6242f1064ba3d84b7cfba612f3b015e31728,
 0x48bee3578a707b5554e7e2bb14cbbb8f5ca8c1f6d06f29307a5a17846b9abc62,
 0x8701a2ccbfc088e228fe97061063843f8bbfd69acd2413592fdf887767821aea,
 0x25dfbe6fc4ef3d6b31028b48b39fbda928e143580a4aaa1c072f10669d0d0a8b,
 0xfa99259c2b30ef18d11739ef66b2d88993b5bc15084ad85e9c39f76a0826da5a,
 0x08f17df90b2dceaf83ab49254077152b3be9862a058e976cc6a80024dac86759,
 0x31283a359b0b3d36dfead93cf169b3ee0b90dadddb66d87b3cfd37b226f00f31,
 0xff5ac34ff826aa5a3abea962ad063a32c54f8fabf3f14a320cc45d13467f158b,
 0x710a1cd9f1a0b9ba09aaf9db1217539223a8f3366fb191fef997233347461718,
 0x5c44d6401043c0680c053f13acbe85c11fea97a91845032a2d84542476255ce7,
 0x5fde4d9b54b971675b672200b26090b531ea64e45c0ce26a37342be7e58333e5,
 0x4b84a79e3b298e35af9f9fc5663cb24e7ee887a9716d26ade1324b642f0c9820,
 0xb6a12563897599f54af6b7082f73fe1b9da96188216905142495144e9b66473d,
 0x5f129f92dc758885fe552d8c78cc20971b822e5b1272fae76179b1123bce19a2,
 0x939e35f440091919eee78682ac5eff9ccb7c1431de5874917d47375c094c47db,
 0x0c4b5685a99ff9fd031ee98d028a3cbd045fc21ce122dc2b013b59c5abf9f530,
 0xbd574b4fda505ed731778f69cfb0b1fd77c49389198bbad862b5ba8a70dcaa4f,
 0x624673c2bd178ad704588c109a4895a1e5aa27cc1582e73c1ae34d28a081c754,
 0x44e693c11472e0f6d3f8ab2735a15254aeba6596419214e969b04001819c7152,
 0x483d85eb29c6df11ad0d55a3a614eb302c4194cc84cd1b9be3b2202fa722b8fb,
 0xfcd827bad442cef8b1ca6e9021159d8492ca5befbea7c49ff8fb85b9246ae6f1,
 0x44e4eff797ac578edcb7b08b78f1d4245593661b0b878e2f77dd8eb6e03ab095,
 0x5f2f4fdca275a2665bc845dac73545ee91fad86efc5465554f74c21777718ed5,
 0xf39ae329e70412f3c649b2315a0b205026482ca77da3ae2128f5bddf1b9be34a,
 0xff226f34a4442df4843a4a796e71627c6977d1a007bd47884f8ab6c3e7479e71,
 0x0365d1e354d723fbf553ab45f01b078d61bc79e4a350c93a17a0d24dad0b70d5,
 0x7295c58b0220ce8e059a2c74392d11c5636913eaec11982970c037229280cca9,
 0x31668aa3fb3026b383b428a7badd676c95ff03fde95817091e2c31eff6061600,
 0xc2a88075305d56da6423f649a19ff603acca173fbb87b57c5324987baa9e77ba,
 0x63be8682e1bf09e27447a14007e1dda8a12f66eb0fded409384aa24bdc5a0ffc,
 0x0a0f790d909434ddb7040f5474465dbd76970949e22b65e034ee7b2e9f0e9e1d,
 0x0179f29002f68264cdb12a67dafb20fe9d9e7f49359567a46d89ae01a72ad9b2,
 0x8f3c4649abd8d7d525bc341d7e2dcd8d01e4a8d2601dc1aa0afc93e501d53f92,
 0xb38084c410b6289724d9d4212bfca3b39bc7891d7e9c43400e37286a70097885,
 0x8097c55313642bff39e9bbf1a93fc9edc96d107dfc9c79e359d01ff8d9d1ef34,
 0xdaa1fd71346441d6f575a076e761ec5450f1221541f7c50f42852aef7d6c953b,
 0xcfd65818c2d271d133a0d6a3f4646e136db88ad0e013315f7f499daef878c64d]

/-- No repetition, as a loop that evaluates fast. -/
def apart : List Nat → Bool
  | [] => true
  | a :: rest => !rest.any (Nat.beq a) && apart rest

theorem nodup_of_apart {l : List Nat} (checked : apart l = true) : l.Nodup := by
  induction l with
  | nil => exact nodup_nil
  | cons a rest ih =>
    rw [apart, Bool.and_eq_true, Bool.not_eq_true', any_eq_false] at checked
    refine List.nodup_cons.mpr ⟨fun inside => ?_, ih checked.2⟩
    exact checked.1 a inside (Nat.beq_refl a)

theorem emptyDigests_listed : emptyDigests.Nodup ∧ (∀ e ∈ emptyDigests, e < 2 ^ 256) ∧
    emptyDigests.length = 257 :=
  ⟨nodup_of_apart (by decide +kernel), by decide +kernel, by decide +kernel⟩

def follower (x : Bytes) : List Nat → Option Nat
  | e :: next :: rest => if word256 e = x then some next else follower x (next :: rest)
  | _ => none

theorem follower_listed {digests : List Nat} (distinct : digests.Nodup)
    (small : ∀ e ∈ digests, e < 2 ^ 256) {n e next : Nat} (here : digests[n]? = some e)
    (after : digests[n + 1]? = some next) : follower (word256 e) digests = some next := by
  induction n generalizing digests with
  | zero =>
    match digests, here, after with
    | a :: b :: rest, here, after =>
      cases here
      cases after
      simp [follower]
  | succ n ih =>
    match digests, here, after with
    | a :: b :: rest, here, after =>
      obtain ⟨absent, others⟩ := List.nodup_cons.mp distinct
      have inside : e ∈ b :: rest := mem_of_getElem? here
      have other : word256 a ≠ word256 e := by
        intro same
        have equal := word256_inj (small a mem_cons_self)
          (small e (mem_cons_of_mem _ inside)) same
        exact absent (equal ▸ inside)
      rw [follower, if_neg other]
      exact ih others (fun x member => small x (mem_cons_of_mem _ member)) here after

def emptyStep (m : Bytes) : Option Nat :=
  if m = nodeText .absent then emptyDigests.head?
  else if m.drop 33 = (m.drop 1).take 32 then follower (m.drop 33) emptyDigests
  else none

theorem emptyStep_branch (x : Bytes) (long : x.length = 32) :
    emptyStep (nodeText (.branch x x)) = follower x emptyDigests := by
  have other : nodeText (.branch x x) ≠ nodeText .absent := by
    intro same
    have lengths := congrArg List.length same
    simp [nodeText, long] at lengths
  have right : (nodeText (.branch x x)).drop 33 = x := by
    simp [nodeText, ← long]
  have left : ((nodeText (.branch x x)).drop 1).take 32 = x := by
    simp [nodeText, ← long]
  rw [emptyStep, if_neg other, right, left, if_pos rfl]

section
variable (nodes : List (TrieNode × Nat)) (texts : List (Bytes × Nat))

def nodeTexts : List (Bytes × Nat) :=
  nodes.map fun row => (nodeText row.1, row.2)

def listedSha (m : Bytes) : Bytes :=
  word256 ((emptyStep m <|> (nodeTexts nodes).lookup m <|> texts.lookup m).getD 0)

def listedBlake3 (m : Bytes) : Bytes :=
  word256 (((nodeTexts nodes).lookup m).getD 0)

def listedHash : TrieNode → Bytes
  | .leaf key value => listedBlake3 nodes (nodeText (.leaf key value))
  | .branch left right => listedSha nodes texts (nodeText (.branch left right))
  | .absent => listedSha nodes texts (nodeText .absent)

def listedNodes : Set TrieNode :=
  {p | p ∈ Tree.emptyPreimages (listedHash nodes texts) 256 ∨ p ∈ nodes.map (·.1)}

def Listable : Prop :=
  (∀ row ∈ nodes, row.2 < 2 ^ 256 ∧ listedHash nodes texts row.1 = word256 row.2 ∧
    !emptyDigests.any (Nat.beq row.2)) ∧ apart (nodes.map (·.2)) = true

instance : Decidable (Listable nodes texts) :=
  inferInstanceAs (Decidable (_ ∧ _))

end

section
variable {nodes : List (TrieNode × Nat)} {texts : List (Bytes × Nat)}

theorem emptyDigest_listed {n e : Nat} (here : emptyDigests[n]? = some e) :
    Tree.emptyDigest (listedHash nodes texts) n = word256 e := by
  induction n generalizing e with
  | zero =>
    have first : emptyStep (nodeText .absent) = some e := by
      rw [emptyStep, if_pos rfl, List.head?_eq_getElem?, here]
    rw [Tree.emptyDigest, listedHash, listedSha, first, Option.orElse_eq_orElse, Option.orElse_some,
      Option.getD_some]
  | succ n ih =>
    obtain ⟨distinct, small, -⟩ := emptyDigests_listed
    obtain ⟨before, found⟩ : ∃ before, emptyDigests[n]? = some before := by
      have inRange := (List.getElem?_eq_some_iff.mp here).1
      exact ⟨_, List.getElem?_eq_getElem (by omega)⟩
    have next : emptyStep (nodeText (.branch (word256 before) (word256 before))) = some e := by
      rw [emptyStep_branch _ (length_word256 before)]
      exact follower_listed distinct small found here
    rw [Tree.emptyDigest, ih found, listedHash, listedSha, next, Option.orElse_eq_orElse,
      Option.orElse_some, Option.getD_some]

theorem emptyPreimage_listed {p : TrieNode} {n : Nat} (low : n ≤ 256)
    (inside : p ∈ Tree.emptyPreimages (listedHash nodes texts) n) :
    ∃ k e, emptyDigests[k]? = some e ∧ listedHash nodes texts p = word256 e ∧
      (p = .absent ∧ k = 0 ∨ ∃ before, emptyDigests[k - 1]? = some before ∧ 0 < k ∧
        p = .branch (word256 before) (word256 before)) := by
  have known {k : Nat} (level : k ≤ 256) : ∃ e, emptyDigests[k]? = some e := by
    obtain ⟨-, -, long⟩ := emptyDigests_listed
    exact ⟨_, List.getElem?_eq_getElem (by omega)⟩
  induction n with
  | zero =>
    obtain ⟨e, found⟩ := known (k := 0) (by omega)
    cases List.mem_singleton.mp inside
    exact ⟨0, e, found, emptyDigest_listed found, .inl ⟨rfl, rfl⟩⟩
  | succ n ih =>
    rcases List.mem_cons.mp inside with rfl | inside
    · obtain ⟨e, found⟩ := known low
      obtain ⟨before, earlier⟩ := known (k := n) (by omega)
      refine ⟨n + 1, e, found, emptyDigest_listed found, .inr ⟨before, earlier, by omega, ?_⟩⟩
      rw [emptyDigest_listed earlier]
    · exact ih (by omega) inside

theorem listedHash_injOn (listable : Listable nodes texts) :
    Set.InjOn (listedHash nodes texts) (listedNodes nodes texts) := by
  obtain ⟨distinct, small, -⟩ := emptyDigests_listed
  obtain ⟨rows, apartRows⟩ := listable
  have digestOf {p : TrieNode} (listed : p ∈ nodes.map (·.1)) : ∃ n, (p, n) ∈ nodes ∧
      n < 2 ^ 256 ∧ listedHash nodes texts p = word256 n ∧ n ∉ emptyDigests := by
    obtain ⟨⟨_, n⟩, inside, rfl⟩ := List.mem_map.mp listed
    obtain ⟨fits, hashed, other⟩ := rows _ inside
    refine ⟨n, inside, fits, hashed, fun empty => ?_⟩
    rw [Bool.not_eq_true', any_eq_false] at other
    exact other n empty (Nat.beq_refl n)
  have mixed {p q : TrieNode} (empty : p ∈ Tree.emptyPreimages (listedHash nodes texts) 256)
      (listed : q ∈ nodes.map (·.1)) : listedHash nodes texts p ≠ listedHash nodes texts q := by
    intro same
    obtain ⟨k, e, found, hashed, -⟩ := emptyPreimage_listed le_rfl empty
    obtain ⟨n, -, fits, hashed', other⟩ := digestOf listed
    have member := mem_of_getElem? found
    have equal := word256_inj (small e member) fits (hashed.symm.trans (same.trans hashed'))
    exact other (equal ▸ member)
  intro p inside q inside' same
  rcases inside with empty | listed <;> rcases inside' with empty' | listed'
  · obtain ⟨k, e, found, hashed, shape⟩ := emptyPreimage_listed le_rfl empty
    obtain ⟨k', e', found', hashed', shape'⟩ := emptyPreimage_listed le_rfl empty'
    have equal := word256_inj (small e (mem_of_getElem? found))
      (small e' (mem_of_getElem? found')) (hashed.symm.trans (same.trans hashed'))
    subst equal
    obtain ⟨inRange, -⟩ := List.getElem?_eq_some_iff.mp found
    have level : k = k' :=
      (List.getElem?_inj inRange distinct).mp (found.trans found'.symm)
    subst level
    rcases shape with ⟨rfl, zero⟩ | ⟨before, earlier, positive, rfl⟩ <;>
      rcases shape' with ⟨rfl, zero'⟩ | ⟨before', earlier', positive', rfl⟩
    · rfl
    · omega
    · omega
    · cases earlier.symm.trans earlier'
      rfl
  · exact absurd same (mixed empty listed')
  · exact absurd same.symm (mixed empty' listed)
  · obtain ⟨n, member, fits, hashed, -⟩ := digestOf listed
    obtain ⟨n', member', fits', hashed', -⟩ := digestOf listed'
    have equal := word256_inj fits fits' (hashed.symm.trans (same.trans hashed'))
    subst equal
    have rowsEqual := inj_on_of_nodup_map (nodup_of_apart apartRows) member member' rfl
    exact congrArg Prod.fst rowsEqual

end

theorem isHexDigest_hexEncode {m : Bytes} (long : m.length = 32) :
    isHexDigest (hexEncode m) = true := by
  have digits : ∀ n < 16, ((hexDigit n).isDigit ||
      'a' ≤ hexDigit n && hexDigit n ≤ 'f') = true := by decide
  unfold isHexDigest
  rw [Bool.and_eq_true, beq_iff_eq, ← String.length_toList, length_hexEncode, long,
    all_eq_true]
  refine ⟨rfl, fun c inside => ?_⟩
  obtain ⟨n, low, rfl⟩ := mem_hexEncode inside
  exact digits n low

section
variable {w : Wire} {nodes : List (TrieNode × Nat)} {texts : List (Bytes × Nat)}
  (sha : ∀ m, w.sha256Hex m = hexEncode (listedSha nodes texts m))
include sha

theorem hexDigests_listed : HexDigests w := by
  intro m
  rw [sha]
  exact isHexDigest_hexEncode (length_word256 _)

theorem digest_listed (m : Bytes) : digest w m = listedSha nodes texts m := by
  unfold digest hexDecode
  rw [sha, hexPairs_hexEncode, Option.getD_some]

theorem nodeHash_listed : nodeHash w (listedBlake3 nodes) = listedHash nodes texts := by
  funext p
  cases p with
  | leaf => rfl
  | branch => exact digest_listed sha _
  | absent => exact digest_listed sha _

end

def namesOver (addresses : List Address) : List KeyName :=
  addresses.map .account ++ addresses.map .pendingRewards ++ addresses.map .liveness ++
    [.totalMinted, .epochState, .src20Registry, .nftRegistry]

theorem mem_namesOver {addresses : List Address} {n : KeyName} :
    n ∈ KeyName.among {a | a ∈ addresses} ↔ n ∈ namesOver addresses := by
  cases n <;> simp [namesOver, KeyName.among, KeyName.owner]

theorem digest_injOn_names {w : Wire} {addresses : List Address}
    (distinct : ((namesOver addresses).map fun n => digest w (n.text w.unicode)).Nodup) :
    Set.InjOn (digest w) (Set.image (KeyName.text w.unicode) (KeyName.among {a | a ∈ addresses})) := by
  rintro _ ⟨n, inside, rfl⟩ _ ⟨m, inside', rfl⟩ same
  rw [inj_on_of_nodup_map distinct (mem_namesOver.mp inside) (mem_namesOver.mp inside') same]

end SentrixCore

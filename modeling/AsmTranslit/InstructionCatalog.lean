import AsmTranslit.InstructionRule

/-!
# The instruction catalog

Every instruction that has a Go form, with its rule.  What is not listed has none: conditional
jumps, sets and moves are recognised by their condition, and the names that a string instruction
shares with a vector instruction are told apart by the operands.
-/

namespace AsmTranslit

namespace Rule

def same : Rule :=
  ⟨.same, .reverse, .plain⟩

def fixed (go : String) : Rule :=
  ⟨.fixed go, .reverse, .plain⟩

def suffixed (stem : String) : Rule :=
  ⟨.suffixed stem none, .reverse, .plain⟩

def shift (stem : String) : Rule :=
  ⟨.suffixed stem none, .reverse, .shift⟩

def widths (long quad : String) : Rule :=
  ⟨.widths long quad, .reverse, .plain⟩

def stringOp (go : String) : Rule :=
  ⟨.fixed go, .reverse, .stringOp⟩

def sizedStringOp (stem : String) : Rule :=
  ⟨.suffixed stem none, .reverse, .stringOp⟩

def branch (go : String) : Rule :=
  ⟨.fixed go, .reverse, .branch⟩

def comparison : Rule :=
  ⟨.same, .swapFirstTwo, .plain⟩

end Rule

namespace Catalog
open Rule

def integer : List (String × Rule) :=
  [("mov", suffixed "MOV"), ("movabs", suffixed "MOV"), ("add", suffixed "ADD"),
   ("adc", suffixed "ADC"), ("sub", suffixed "SUB"), ("sbb", suffixed "SBB"),
   ("and", suffixed "AND"), ("or", suffixed "OR"), ("xor", suffixed "XOR"),
   ("not", suffixed "NOT"), ("neg", suffixed "NEG"), ("inc", suffixed "INC"),
   ("dec", suffixed "DEC"), ("cmp", ⟨.suffixed "CMP" none, .keep, .plain⟩),
   ("test", suffixed "TEST"), ("lea", suffixed "LEA"), ("mul", suffixed "MUL"),
   ("div", suffixed "DIV"), ("idiv", suffixed "IDIV"), ("imul", ⟨.multiply, .reverse, .plain⟩),
   ("xchg", suffixed "XCHG"), ("xadd", suffixed "XADD"), ("cmpxchg", suffixed "CMPXCHG"),
   ("bt", suffixed "BT"), ("bts", suffixed "BTS"), ("btr", suffixed "BTR"),
   ("btc", suffixed "BTC"), ("bsf", suffixed "BSF"), ("bsr", suffixed "BSR"),
   ("bswap", suffixed "BSWAP"), ("popcnt", suffixed "POPCNT"), ("lzcnt", suffixed "LZCNT"),
   ("tzcnt", suffixed "TZCNT"), ("andn", suffixed "ANDN"), ("bextr", suffixed "BEXTR"),
   ("blsi", suffixed "BLSI"), ("blsmsk", suffixed "BLSMSK"), ("blsr", suffixed "BLSR"),
   ("bzhi", suffixed "BZHI"), ("pdep", suffixed "PDEP"), ("pext", suffixed "PEXT"),
   ("mulx", suffixed "MULX"), ("rorx", suffixed "RORX"), ("sarx", suffixed "SARX"),
   ("shlx", suffixed "SHLX"), ("shrx", suffixed "SHRX"), ("shl", shift "SHL"),
   ("sal", shift "SAL"), ("shr", shift "SHR"), ("sar", shift "SAR"), ("rol", shift "ROL"),
   ("ror", shift "ROR"), ("rcl", shift "RCL"), ("rcr", shift "RCR"), ("shld", shift "SHL"),
   ("shrd", shift "SHR"), ("push", ⟨.suffixed "PUSH" (some .qword), .reverse, .plain⟩),
   ("pop", ⟨.suffixed "POP" (some .qword), .reverse, .plain⟩),
   ("movzx", ⟨.extend false, .reverse, .plain⟩), ("movsx", ⟨.extend true, .reverse, .plain⟩),
   ("movsxd", ⟨.extend true, .reverse, .plain⟩), ("cbw", fixed "CBW"), ("cwde", fixed "CWDE"),
   ("cdqe", fixed "CDQE"), ("cwd", fixed "CWD"), ("cdq", fixed "CDQ"), ("cqo", fixed "CQO"),
   ("leave", fixed "LEAVEQ"), ("clc", fixed "CLC"), ("stc", fixed "STC"), ("cmc", fixed "CMC"),
   ("cld", fixed "CLD"), ("std", fixed "STD"), ("cpuid", fixed "CPUID"), ("rdtsc", fixed "RDTSC"),
   ("pause", fixed "PAUSE"), ("lfence", fixed "LFENCE"), ("mfence", fixed "MFENCE"),
   ("sfence", fixed "SFENCE"), ("ud2", fixed "UD2"), ("xgetbv", fixed "XGETBV")]

/-- Control transfers other than conditional jumps, and instructions that do nothing. -/
def control : List (String × Rule) :=
  [("jmp", branch "JMP"), ("jrcxz", branch "JCXZQ"), ("jecxz", branch "JCXZL"),
   ("ret", ⟨.fixed "RET", .reverse, .ret⟩), ("nop", ⟨.fixed "NOP", .reverse, .nop⟩),
   ("endbr64", ⟨.fixed "NOP", .reverse, .nop⟩)]

/-- String instructions, but for the two that share their names with vector instructions. -/
def string : List (String × Rule) :=
  [("movsb", stringOp "MOVSB"), ("movsw", stringOp "MOVSW"), ("movsq", stringOp "MOVSQ"),
   ("movs", sizedStringOp "MOVS"), ("stosb", stringOp "STOSB"), ("stosw", stringOp "STOSW"),
   ("stosd", stringOp "STOSL"), ("stosq", stringOp "STOSQ"), ("stos", sizedStringOp "STOS"),
   ("lodsb", stringOp "LODSB"), ("lodsw", stringOp "LODSW"), ("lodsd", stringOp "LODSL"),
   ("lodsq", stringOp "LODSQ"), ("lods", sizedStringOp "LODS"), ("scasb", stringOp "SCASB"),
   ("scasw", stringOp "SCASW"), ("scasd", stringOp "SCASL"), ("scasq", stringOp "SCASQ"),
   ("scas", sizedStringOp "SCAS"), ("cmpsb", stringOp "CMPSB"), ("cmpsw", stringOp "CMPSW"),
   ("cmpsq", stringOp "CMPSQ"), ("cmps", sizedStringOp "CMPS")]

def renamed : List (String × Rule) :=
  [("movd", fixed "MOVL"), ("movq", fixed "MOVQ"), ("movdqa", fixed "MOVO"),
   ("movdqu", fixed "MOVOU"), ("movntdq", fixed "MOVNTO"), ("pshufd", fixed "PSHUFL"),
   ("pslldq", fixed "PSLLO"), ("psrldq", fixed "PSRLO"), ("paddd", fixed "PADDL"),
   ("psubd", fixed "PSUBL"), ("pmaddwd", fixed "PMADDWL"), ("pmuludq", fixed "PMULULQ"),
   ("pcmpeqd", fixed "PCMPEQL"), ("pcmpgtd", fixed "PCMPGTL"), ("packssdw", fixed "PACKSSLW"),
   ("punpckldq", fixed "PUNPCKLLQ"), ("punpckhdq", fixed "PUNPCKHLQ"),
   ("punpcklwd", fixed "PUNPCKLWL"), ("punpckhwd", fixed "PUNPCKHWL"), ("psrad", fixed "PSRAL"),
   ("psrld", fixed "PSRLL"), ("pslld", fixed "PSLLL"), ("cvtdq2ps", fixed "CVTPL2PS"),
   ("cvtdq2pd", fixed "CVTPL2PD"), ("cvtps2dq", fixed "CVTPS2PL"), ("cvtpd2dq", fixed "CVTPD2PL"),
   ("cvttps2dq", fixed "CVTTPS2PL"), ("cvttpd2dq", fixed "CVTTPD2PL"),
   ("cvtsi2sd", widths "CVTSL2SD" "CVTSQ2SD"), ("cvtsi2ss", widths "CVTSL2SS" "CVTSQ2SS"),
   ("cvtsd2si", widths "CVTSD2SL" "CVTSD2SQ"), ("cvttsd2si", widths "CVTTSD2SL" "CVTTSD2SQ"),
   ("cvtss2si", widths "CVTSS2SL" "CVTSS2SQ"), ("cvttss2si", widths "CVTTSS2SL" "CVTTSS2SQ"),
   ("vcvtsi2sd", widths "VCVTSI2SDL" "VCVTSI2SDQ"),
   ("vcvtsi2ss", widths "VCVTSI2SSL" "VCVTSI2SSQ"), ("vcvtsd2si", widths "VCVTSD2SI" "VCVTSD2SIQ"),
   ("vcvttsd2si", widths "VCVTTSD2SI" "VCVTTSD2SIQ"),
   ("vcvtss2si", widths "VCVTSS2SI" "VCVTSS2SIQ"),
   ("vcvttss2si", widths "VCVTTSS2SI" "VCVTTSS2SIQ")]

def legacySame : List String :=
  ["addps", "addpd", "addss", "addsd", "subps", "subpd", "subss", "subsd", "mulps", "mulpd",
   "mulss", "mulsd", "divps", "divpd", "divss", "divsd", "sqrtps", "sqrtpd", "sqrtss", "sqrtsd",
   "maxps", "maxpd", "maxss", "maxsd", "minps", "minpd", "minss", "minsd", "rcpps", "rcpss",
   "rsqrtps", "rsqrtss", "andps", "andpd", "andnps", "andnpd", "orps", "orpd", "xorps", "xorpd",
   "movaps", "movapd", "movups", "movupd", "movss", "movsd", "movhlps", "movlhps", "movhps",
   "movhpd", "movlps", "movlpd", "movmskps", "movmskpd", "movntps", "movntpd", "movddup",
   "movshdup", "movsldup", "lddqu", "unpcklps", "unpckhps", "unpcklpd", "unpckhpd", "shufps",
   "shufpd", "ucomiss", "ucomisd", "comiss", "comisd", "cvtss2sd", "cvtsd2ss", "cvtps2pd",
   "cvtpd2ps", "roundps", "roundpd", "roundss", "roundsd", "blendps", "blendpd", "blendvps",
   "blendvpd", "dpps", "dppd", "haddps", "haddpd", "hsubps", "hsubpd", "addsubps", "addsubpd",
   "insertps", "extractps", "pxor", "por", "pand", "pandn", "paddb", "paddw", "paddq", "paddsb",
   "paddsw", "paddusb", "paddusw", "psubb", "psubw", "psubq", "psubsb", "psubsw", "psubusb",
   "psubusw", "pmullw", "pmulld", "pmulhw", "pmulhuw", "pmulhrsw", "pmuldq", "pmaddubsw", "psadbw",
   "pavgb", "pavgw", "pminsb", "pminsw", "pminsd", "pminub", "pminuw", "pminud", "pmaxsb",
   "pmaxsw", "pmaxsd", "pmaxub", "pmaxuw", "pmaxud", "pabsb", "pabsw", "pabsd", "psignb", "psignw",
   "psignd", "pcmpeqb", "pcmpeqw", "pcmpeqq", "pcmpgtb", "pcmpgtw", "pcmpgtq", "packsswb",
   "packuswb", "packusdw", "punpcklbw", "punpckhbw", "punpcklqdq", "punpckhqdq", "psllw", "psllq",
   "psrlw", "psrlq", "psraw", "pshufb", "pshuflw", "pshufhw", "palignr", "pblendw", "pblendvb",
   "pmovmskb", "ptest", "pextrb", "pextrw", "pextrd", "pextrq", "pinsrb", "pinsrw", "pinsrd",
   "pinsrq", "pmovzxbw", "pmovzxbd", "pmovzxbq", "pmovzxwd", "pmovzxwq", "pmovzxdq", "pmovsxbw",
   "pmovsxbd", "pmovsxbq", "pmovsxwd", "pmovsxwq", "pmovsxdq", "phaddw", "phaddd", "phsubw",
   "phsubd", "pclmulqdq", "aesenc", "aesenclast", "aesdec", "aesdeclast"]

def extendedSame : List String :=
  ["vzeroupper", "vzeroall", "vmovaps", "vmovapd", "vmovups", "vmovupd", "vmovdqa", "vmovdqu",
   "vmovdqa32", "vmovdqa64", "vmovdqu8", "vmovdqu16", "vmovdqu32", "vmovdqu64", "vmovss", "vmovsd",
   "vmovd", "vmovq", "vmovhlps", "vmovlhps", "vmovhps", "vmovhpd", "vmovlps", "vmovlpd",
   "vmovddup", "vmovshdup", "vmovsldup", "vmovntdq", "vmovntps", "vmovntpd", "vmovmskps",
   "vmovmskpd", "vlddqu", "vaddps", "vaddpd", "vaddss", "vaddsd", "vsubps", "vsubpd", "vsubss",
   "vsubsd", "vmulps", "vmulpd", "vmulss", "vmulsd", "vdivps", "vdivpd", "vdivss", "vdivsd",
   "vsqrtps", "vsqrtpd", "vsqrtss", "vsqrtsd", "vmaxps", "vmaxpd", "vmaxss", "vmaxsd", "vminps",
   "vminpd", "vminss", "vminsd", "vrcpps", "vrcpss", "vrsqrtps", "vrsqrtss", "vandps", "vandpd",
   "vandnps", "vandnpd", "vorps", "vorpd", "vxorps", "vxorpd", "vhaddps", "vhaddpd", "vhsubps",
   "vhsubpd", "vaddsubps", "vaddsubpd", "vdpps", "vroundps", "vroundpd", "vroundss", "vroundsd",
   "vblendps", "vblendpd", "vblendvps", "vblendvpd", "vshufps", "vshufpd", "vunpcklps",
   "vunpckhps", "vunpcklpd", "vunpckhpd", "vinsertps", "vextractps", "vcmpps", "vcmppd", "vcmpss",
   "vcmpsd", "vucomiss", "vucomisd", "vcomiss", "vcomisd", "vcvtdq2ps", "vcvtdq2pd", "vcvtps2dq",
   "vcvttps2dq", "vcvtpd2dq", "vcvttpd2dq", "vcvtps2pd", "vcvtpd2ps", "vcvtss2sd", "vcvtsd2ss",
   "vcvtph2ps", "vcvtps2ph", "vbroadcastss", "vbroadcastsd", "vbroadcastf128", "vbroadcasti128",
   "vpbroadcastb", "vpbroadcastw", "vpbroadcastd", "vpbroadcastq", "vinsertf128", "vinserti128",
   "vextractf128", "vextracti128", "vperm2f128", "vperm2i128", "vpermq", "vpermd", "vpermps",
   "vpermpd", "vpermilps", "vpermilpd", "vmaskmovps", "vmaskmovpd", "vpmaskmovd", "vpmaskmovq",
   "vptest", "vtestps", "vtestpd", "vpand", "vpandn", "vpor", "vpxor", "vpandd", "vpandq",
   "vpandnd", "vpandnq", "vpord", "vporq", "vpxord", "vpxorq", "vpternlogd", "vpternlogq",
   "vpaddb", "vpaddw", "vpaddd", "vpaddq", "vpaddsb", "vpaddsw", "vpaddusb", "vpaddusw", "vpsubb",
   "vpsubw", "vpsubd", "vpsubq", "vpsubsb", "vpsubsw", "vpsubusb", "vpsubusw", "vpmullw",
   "vpmulld", "vpmullq", "vpmulhw", "vpmulhuw", "vpmulhrsw", "vpmuldq", "vpmuludq", "vpmaddwd",
   "vpmaddubsw", "vpsadbw", "vpavgb", "vpavgw", "vpminsb", "vpminsw", "vpminsd", "vpminub",
   "vpminuw", "vpminud", "vpmaxsb", "vpmaxsw", "vpmaxsd", "vpmaxub", "vpmaxuw", "vpmaxud",
   "vpabsb", "vpabsw", "vpabsd", "vpsignb", "vpsignw", "vpsignd", "vpcmpeqb", "vpcmpeqw",
   "vpcmpeqd", "vpcmpeqq", "vpcmpgtb", "vpcmpgtw", "vpcmpgtd", "vpcmpgtq", "vpacksswb",
   "vpackssdw", "vpackuswb", "vpackusdw", "vpunpcklbw", "vpunpckhbw", "vpunpcklwd", "vpunpckhwd",
   "vpunpckldq", "vpunpckhdq", "vpunpcklqdq", "vpunpckhqdq", "vpsllw", "vpslld", "vpsllq",
   "vpsrlw", "vpsrld", "vpsrlq", "vpsraw", "vpsrad", "vpsllvd", "vpsllvq", "vpsrlvd", "vpsrlvq",
   "vpsravd", "vpslldq", "vpsrldq", "vpshufb", "vpshufd", "vpshuflw", "vpshufhw", "vpalignr",
   "vpblendw", "vpblendd", "vpblendvb", "vpmovmskb", "vpextrb", "vpextrw", "vpextrd", "vpextrq",
   "vpinsrb", "vpinsrw", "vpinsrd", "vpinsrq", "vpmovzxbw", "vpmovzxbd", "vpmovzxbq", "vpmovzxwd",
   "vpmovzxwq", "vpmovzxdq", "vpmovsxbw", "vpmovsxbd", "vpmovsxbq", "vpmovsxwd", "vpmovsxwq",
   "vpmovsxdq", "vphaddw", "vphaddd", "vphsubw", "vphsubd", "vpclmulqdq", "vaesenc", "vaesenclast",
   "vaesdec", "vaesdeclast"]

def fusedOperations : List (String × List String) :=
  [("vfmadd", ["ps", "pd", "ss", "sd"]), ("vfmsub", ["ps", "pd", "ss", "sd"]),
   ("vfnmadd", ["ps", "pd", "ss", "sd"]), ("vfnmsub", ["ps", "pd", "ss", "sd"]),
   ("vfmaddsub", ["ps", "pd"]), ("vfmsubadd", ["ps", "pd"])]

def fused : List String :=
  fusedOperations.flatMap fun (operation, types) =>
    ["132", "213", "231"].flatMap fun order => types.map fun type => operation ++ order ++ type

/-- Legacy comparisons whose names no string instruction has. -/
def comparisons : List String :=
  ["cmpps", "cmppd", "cmpss"]

/-- All mnemonics that have a rule whatever their operands are. -/
def entries : List (String × Rule) :=
  integer ++ control ++ string ++ renamed ++ (legacySame ++ extendedSame ++ fused).map (·, same) ++
    comparisons.map (·, comparison)

end Catalog

def conditionAfter? (start mnemonic : String) : Option (Option Condition) :=
  (start.toList.isPrefixOf? mnemonic.toList).map fun rest => Condition.ofIntel? (String.ofList rest)

def conditionalRule? (mnemonic : String) : Option Rule :=
  match conditionAfter? "cmov" mnemonic with
  | some condition => condition.map fun c => ⟨.move c, .reverse, .plain⟩
  | none =>
    match conditionAfter? "set" mnemonic with
    | some condition => condition.map fun c => ⟨.set c, .reverse, .plain⟩
    | none =>
      match conditionAfter? "j" mnemonic with
      | some condition => condition.map fun c => ⟨.jump c, .reverse, .branch⟩
      | none => none

/-- The rule of a mnemonic in lower case.  `movsd` and `cmpsd` are vector instructions if an operand
is a vector register and string instructions otherwise. -/
def Rule.find? (mnemonic : String) (hasVector : Bool) : Option Rule :=
  match mnemonic, hasVector with
  | "movsd", false => some (stringOp "MOVSL")
  | "cmpsd", false => some (stringOp "CMPSL")
  | "cmpsd", true => some comparison
  | _, _ => (Catalog.entries.lookup mnemonic).or (conditionalRule? mnemonic)

def comparePredicates : List String :=
  ["eq", "lt", "le", "unord", "neq", "nlt", "nle", "ord", "eq_uq", "nge", "ngt", "false", "neq_oq",
   "ge", "gt", "true", "eq_os", "lt_oq", "le_oq", "unord_s", "neq_us", "nlt_uq", "nle_uq", "ord_s",
   "eq_us", "nge_uq", "ngt_uq", "false_os", "neq_os", "ge_oq", "gt_oq", "true_us"]

/-- The number of predicates that legacy comparisons have. -/
def legacyPredicates : Nat := 8

def withoutEnd? (ending cs : List Char) : Option (List Char) :=
  (ending.reverse.isPrefixOf? cs.reverse).map List.reverse

/-- The comparison and its number that a predicate and a data type after `family` stand for; only
the first predicates up to `limit` are known. -/
def comparisonOf? (family : String) (limit : Nat) (rest : List Char) : Option (String × Nat) :=
  ["ps", "pd", "ss", "sd"].findSome? fun type => do
    let predicate ← withoutEnd? type.toList rest
    let n ← (comparePredicates.take limit).idxOf? (String.ofList predicate)
    return (family ++ type, n)

/-- The comparison that a mnemonic with a predicate in its name stands for, and the predicate's
number. -/
def comparison? (mnemonic : String) : Option (String × Nat) :=
  match "vcmp".toList.isPrefixOf? mnemonic.toList with
  | some rest => comparisonOf? "vcmp" comparePredicates.length rest
  | none =>
    match "cmp".toList.isPrefixOf? mnemonic.toList with
    | some rest => comparisonOf? "cmp" legacyPredicates rest
    | none => none

end AsmTranslit

import TopdownMetrics.Rules.Basic

/-!
# The built-in rules

The rules that hold when no others are given.
-/

namespace TopdownMetrics.Rules

namespace Builtin

def keywords : List String :=
  ["if", "then", "else", "min", "max", "core_wide", "SMT_on", "Model", "num_dies",
   "duration_time", "cmask", "umask", "u", "k", "cpu", "cpu_atom", "cpu_core", "edge",
   "inv", "TSC", "filter_opc", "cha_0", "event", "imc_0", "uncore_cha_0", "cbox_0", "arb",
   "cbox", "num_packages", "num_cores", "SYSTEM_TSC_FREQ", "filter_tid", "cha", "config1",
   "source_count", "slots", "thresh"]

/-- Some spellings leave a literal zero behind, which is taken out again here. -/
def commonFixups : List Fixup := [
  ⟨"_PS", ""⟩,
  ⟨"#Memory == 1", "#Memory"⟩,
  ⟨"#PMM_App_Direct", "1"⟩,
  ⟨":USER", ":user"⟩,
  ⟨":SUP", ":sup"⟩,
  ⟨"(0 + ", "("⟩,
  ⟨" + 0)", ")"⟩,
  ⟨"+ 0 +", "+"⟩,
  ⟨", 0 +", ","⟩,
  ⟨"else 0 +", "else"⟩]

def topdownFixups : List Fixup := [
  ⟨"PERF_METRICS.BACKEND_BOUND", "topdown\\-be\\-bound"⟩,
  ⟨"PERF_METRICS.BAD_SPECULATION", "topdown\\-bad\\-spec"⟩,
  ⟨"PERF_METRICS.BRANCH_MISPREDICTS", "topdown\\-br\\-mispredict"⟩,
  ⟨"PERF_METRICS.FETCH_LATENCY", "topdown\\-fetch\\-lat"⟩,
  ⟨"PERF_METRICS.FRONTEND_BOUND", "topdown\\-fe\\-bound"⟩,
  ⟨"PERF_METRICS.HEAVY_OPERATIONS", "topdown\\-heavy\\-ops"⟩,
  ⟨"PERF_METRICS.MEMORY_BOUND", "topdown\\-mem\\-bound"⟩,
  ⟨"PERF_METRICS.RETIRING", "topdown\\-retiring"⟩,
  ⟨"TOPDOWN.SLOTS:perf_metrics", "TOPDOWN.SLOTS"⟩,
  ⟨"TOPDOWN.SLOTS:percore", "TOPDOWN.SLOTS"⟩]

/-- Opcode filters of the last-level cache, written as modifiers. -/
def cboxOpcodeFixups : List Fixup := [
  ⟨"UNC_C_TOR_OCCUPANCY.MISS_OPCODE:opc=0x182:c1",
   "UNC_C_TOR_OCCUPANCY.MISS_OPCODE@filter_opc\\=0x182\\,thresh\\=1@"⟩,
  ⟨"UNC_C_TOR_OCCUPANCY.MISS_OPCODE:opc=0x182",
   "UNC_C_TOR_OCCUPANCY.MISS_OPCODE@filter_opc\\=0x182@"⟩,
  ⟨"UNC_C_TOR_INSERTS.MISS_OPCODE:opc=0x182",
   "UNC_C_TOR_INSERTS.MISS_OPCODE@filter_opc\\=0x182@"⟩,
  ⟨"UNC_C_CLOCKTICKS:one_unit", "cbox_0@event\\=0x0@"⟩]

/-- Opcode filters of the last-level cache, written in quotes. -/
def cboxMatchFixups : List Fixup := [
  ⟨"\"UNC_C_TOR_OCCUPANCY.MISS_OPCODE/Match=0x182:c1\"",
   "UNC_C_TOR_OCCUPANCY.MISS_OPCODE@filter_opc\\=0x182\\,thresh\\=1@"⟩,
  ⟨"\"UNC_C_TOR_OCCUPANCY.MISS_OPCODE/Match=0x182\"",
   "UNC_C_TOR_OCCUPANCY.MISS_OPCODE@filter_opc\\=0x182@"⟩,
  ⟨"\"UNC_C_TOR_INSERTS.MISS_OPCODE/Match=0x182\"",
   "UNC_C_TOR_INSERTS.MISS_OPCODE@filter_opc\\=0x182@"⟩,
  ⟨"UNC_C_CLOCKTICKS:one_unit", "cbox_0@event\\=0x0@"⟩]

def arbFixups : List Fixup := [
  ⟨"UNC_ARB_COH_TRK_REQUESTS.ALL", "arb@event\\=0x84\\,umask\\=0x1@"⟩,
  ⟨"UNC_ARB_TRK_REQUESTS.ALL", "arb@event\\=0x81\\,umask\\=0x1@"⟩]

def chaReadFixups : List Fixup := [
  ⟨"UNC_CHA_TOR_OCCUPANCY.IA_MISS_DRD:c1",
   "UNC_CHA_TOR_OCCUPANCY.IA_MISS_DRD@thresh\\=1@"⟩]

def formulaColumns : List FormulaColumn := [
  ⟨"IVT", ["IVB", "JKT/SNB-EP", "SNB"], none⟩,
  ⟨"IVB", ["SNB"], none⟩,
  ⟨"HSW", ["IVB", "SNB"], none⟩,
  ⟨"HSX", ["HSW", "IVT", "IVB", "JKT/SNB-EP", "SNB"], none⟩,
  ⟨"BDW", ["HSW", "IVB", "SNB"], none⟩,
  ⟨"BDX", ["BDW", "HSX", "HSW", "IVT", "IVB", "JKT/SNB-EP", "SNB"], none⟩,
  ⟨"SNB", [], none⟩,
  ⟨"JKT/SNB-EP", ["SNB"], none⟩,
  ⟨"SKL/KBL", ["BDW", "HSW", "IVB", "SNB"], none⟩,
  ⟨"SKX", ["SKL/KBL", "BDX", "BDW", "HSX", "HSW", "IVT", "IVB", "JKT/SNB-EP", "SNB"], none⟩,
  ⟨"KBLR/CFL", ["SKL/KBL", "BDW", "HSW", "IVB", "SNB"], none⟩,
  ⟨"CLX", ["KBLR/CFL/CML", "SKX", "SKL/KBL", "BDX", "BDW", "HSX", "HSW", "IVT", "IVB",
           "JKT/SNB-EP", "SNB"], none⟩,
  ⟨"ICL", ["CNL", "KBLR/CFL/CML", "SKL/KBL", "BDW", "HSW", "IVB", "SNB"], none⟩,
  ⟨"ICX", ["ICL", "CNL", "CPX", "CLX", "KBLR/CFL/CML", "SKX", "SKL/KBL", "BDX", "BDW",
           "HSX", "HSW", "IVT", "IVB", "JKT/SNB-EP", "SNB"], none⟩,
  ⟨"RKL", ["ICL", "CNL", "KBLR/CFL/CML", "SKL/KBL", "BDW", "HSW", "IVB", "SNB"], none⟩,
  ⟨"TGL", ["RKL", "ICL", "CNL", "KBLR/CFL/CML", "SKL/KBL", "BDW", "HSW", "IVB", "SNB"], none⟩,
  ⟨"ADL/RPL", ["TGL", "RKL", "ICL", "CNL", "KBLR/CFL/CML", "SKL/KBL", "BDW", "HSW", "IVB",
               "SNB"], some "GRT"⟩,
  ⟨"SPR", ["ADL/RPL", "TGL", "RKL", "ICX", "ICL", "CNL", "CPX", "CLX", "KBLR/CFL/CML",
           "SKX", "SKL/KBL", "BDX", "BDW", "HSX", "HSW", "IVT", "IVB", "JKT/SNB-EP",
           "SNB"], none⟩,
  ⟨"GRT", [], none⟩]

/-- Cycles spent in page walks, per core cycle. -/
def pageWalksFormula : String :=
  "(ITLB_MISSES.WALK_DURATION + DTLB_LOAD_MISSES.WALK_DURATION + " ++
    "DTLB_STORE_MISSES.WALK_DURATION + 7 * (DTLB_STORE_MISSES.WALK_COMPLETED + " ++
    "DTLB_LOAD_MISSES.WALK_COMPLETED + ITLB_MISSES.WALK_COMPLETED)) / (2 * CORE_CLKS)"

def archs : List (String × ArchRules) := [
  ("ADL", { ArchRules.undeclared with
    fixupSets := ["topdown"] }),
  ("BDW-DE", { ArchRules.undeclared with
    formulaColumn := some "BDW"
    fixupSets := ["arb"]
    bannedEvents := ["UNC_CLOCK.SOCKET"]
    droppedMetrics := ["MEM_Parallel_Requests", "MEM_Request_Latency", "tma_false_sharing"]
    forcedFormulas := [("Page_Walks_Utilization", pageWalksFormula)] }),
  ("BDX", { ArchRules.undeclared with
    fixupSets := ["cbox_opcode"] }),
  ("CLX", { ArchRules.undeclared with
    fixups := [
      ⟨"UNC_M_CLOCKTICKS:one_unit", "imc_0@event\\=0x0@"⟩,
      ⟨"UNC_CHA_CLOCKTICKS:one_unit", "cha_0@event\\=0x0@"⟩]
    fixupSets := ["cha_drd"] }),
  ("HSX", { ArchRules.undeclared with
    fixupSets := ["cbox_opcode"] }),
  ("ICL", { ArchRules.undeclared with
    fixupSets := ["topdown"] }),
  ("ICX", { ArchRules.undeclared with
    fixups := [
      ⟨"UNC_CHA_CLOCKTICKS:one_unit", "cha_0@event\\=0x0@"⟩]
    fixupSets := ["cha_drd", "topdown"] }),
  ("IVT", { ArchRules.undeclared with
    fixupSets := ["cbox_match"] }),
  ("JKT", { ArchRules.undeclared with
    fixupSets := ["cbox_match"] }),
  ("SKL", { ArchRules.undeclared with
    fixups := [
      ⟨"UNC_ARB_TRK_OCCUPANCY.DATA_READ:c1", "UNC_ARB_TRK_OCCUPANCY.DATA_READ@thresh\\=1@"⟩] }),
  ("SKX", { ArchRules.undeclared with
    fixups := [
      ⟨"UNC_M_CLOCKTICKS:one_unit", "imc_0@event\\=0x0@"⟩,
      ⟨"UNC_CHA_CLOCKTICKS:one_unit", "cha_0@event\\=0x0@"⟩]
    fixupSets := ["cha_drd"] }),
  ("SPR", { ArchRules.undeclared with
    fixups := [
      ⟨"UNC_CHA_CLOCKTICKS:one_unit", "uncore_cha_0@event\\=0x1@"⟩]
    fixupSets := ["cha_drd", "topdown"] }),
  ("TGL", { ArchRules.undeclared with
    fixupSets := ["arb", "topdown"]
    bannedEvents := ["UNC_CLOCK.SOCKET"] })]

def idleStates : List IdleStateRule := [
  ⟨["NHM", "WSM"],
    [3, 6], [3, 6, 7]⟩,
  ⟨["SNB", "IVB", "HSW", "BDW", "BDW-DE", "BDX", "SKL", "SKX", "CLX", "CPX", "HSX", "IVT",
    "JKT"],
    [3, 6, 7], [2, 3, 6, 7]⟩,
  ⟨["KBL"],
    [3, 6, 7], [2, 3, 6, 7]⟩,
  ⟨["CNL"],
    [1, 3, 6, 7], [2, 3, 6, 7, 8, 9, 10]⟩,
  ⟨["ICL", "TGL", "RKL"],
    [6, 7], [2, 3, 6, 7, 8, 9, 10]⟩,
  ⟨["ICX", "SPR"],
    [1, 6], [2, 6]⟩,
  ⟨["ADL", "GRT"],
    [1, 6, 7], [2, 3, 6, 7, 8, 9, 10]⟩,
  ⟨["SLM"],
    [1, 6], [6]⟩,
  ⟨["KNL", "KNM"],
    [6], [2, 3, 6]⟩,
  ⟨["GLM", "SNR"],
    [1, 3, 6], [2, 3, 6, 10]⟩]

end Builtin

def builtin : Rules where
  keywords := Builtin.keywords
  keywordPrefixes := ["topdown\\-"]
  ignoredMetrics := ["MUX", "Power", "Time"]
  watchdogMetrics := ["Backend_Bound", "Page_Walks_Utilization"]
  topdownPrefixes := ["BE", "BAD", "RET", "FE"]
  slots := ⟨"topdown\\-", "SLOTS", "0*SLOTS"⟩
  metricGroups :=
    [("IFetch_Line_Utilization", "Frontend"),
     ("Kernel_Utilization", "Summary"),
     ("Turbo_Utilization", "Power")]
  context := ⟨["core_wide", "Model", "SMT_on", "num_dies"],
    [("DurationTimeInSeconds", "duration_time"), ("EBS_Mode", "#core_wide < 1"), ("NA", "0")]⟩
  commonFixups := Builtin.commonFixups
  fixupSets := [
    ("topdown", Builtin.topdownFixups),
    ("cbox_opcode", Builtin.cboxOpcodeFixups),
    ("cbox_match", Builtin.cboxMatchFixups),
    ("arb", Builtin.arbFixups),
    ("cha_drd", Builtin.chaReadFixups)]
  formulaColumns := Builtin.formulaColumns
  archs := Builtin.archs
  idleStates := Builtin.idleStates

end TopdownMetrics.Rules

import Mathlib.Logic.Function.Basic
import Rocsift.Base.Numerals
import Rocsift.Base.TextLines
import Rocsift.Base.WordSearch
import Rocsift.Pm4.Text

/-! The properties file of a KFD node, as `ParseKFDProperties` reads it when no device-id override
is set. Every line is tried against the expressions in the order of the source. -/
namespace Rocsift.Kfd
open Pm4 (isSpace)

inductive Field where
  | cpu_cores_count | simd_count | mem_banks_count | caches_count | io_links_count | p2p_links_count
  | cpu_core_id_base | simd_id_base | max_waves_per_simd | lds_size_in_kb | gds_size_in_kb | num_gws
  | wave_front_size | array_count | simd_arrays_per_engine | cu_per_simd_array | simd_per_cu
  | max_slots_scratch_cu | gfx_target_version | vendor_id | device_id | location_id | domain_id
  | drm_render_minor | hive_id | num_sdma_engines | num_sdma_xgmi_engines
  | num_sdma_queues_per_engine | num_cp_queues | max_engine_clk_fcompute | local_mem_size
  | fw_version | capability | debug_prop | sdma_fw_version | unique_id | num_xcc
  | max_engine_clk_ccompute
  deriving DecidableEq

abbrev Properties := Field → BitVec 64

def isWord (c : Char) : Bool := c.isAlphanum || c = '_'

/-- `std::regex_search` with `literal\s+(\w+)`. -/
def regexSearch (line : List Char) (literal : String) : Option (List Char) :=
  WordSearch.search isSpace isWord literal.toList line

/-- The fields in the order of the searches, each with the literal of its expression. -/
def searches : List (Field × String) :=
  [(.cpu_cores_count, "cpu_cores_count"), (.simd_count, "simd_count"),
   (.mem_banks_count, "mem_banks_count"), (.caches_count, "caches_count"),
   (.io_links_count, "io_links_count"), (.p2p_links_count, "p2p_links_count"),
   (.cpu_core_id_base, "cpu_core_id_base"), (.simd_id_base, "simd_id_base"),
   (.max_waves_per_simd, "max_waves_per_simd"), (.lds_size_in_kb, "lds_size_in_kb"),
   (.gds_size_in_kb, "gds_size_in_kb"), (.num_gws, "num_gws "),
   (.wave_front_size, "wave_front_size"), (.array_count, "array_count"),
   (.simd_arrays_per_engine, "simd_arrays_per_engine"), (.cu_per_simd_array, "cu_per_simd_array"),
   (.simd_per_cu, "simd_per_cu"), (.max_slots_scratch_cu, "max_slots_scratch_cu"),
   (.gfx_target_version, "gfx_target_version"), (.vendor_id, "vendor_id"),
   (.device_id, "device_id"), (.location_id, "location_id"), (.domain_id, "domain"),
   (.drm_render_minor, "drm_render_minor"), (.hive_id, "hive_id"),
   (.num_sdma_engines, "num_sdma_engines"), (.num_sdma_xgmi_engines, "num_sdma_xgmi_engines"),
   (.num_sdma_queues_per_engine, "num_sdma_queues_per_engine"), (.num_cp_queues, "num_cp_queues"),
   (.max_engine_clk_fcompute, "max_engine_clk_fcompute"), (.local_mem_size, "local_mem_size"),
   (.fw_version, "fw_version"), (.capability, "capability"), (.debug_prop, "debug_prop"),
   (.sdma_fw_version, "sdma_fw_version"), (.unique_id, "unique_id"), (.num_xcc, "num_xcc"),
   (.max_engine_clk_ccompute, "max_engine_clk_ccompute")]

def readLine (props : Properties) (line : List Char) : Properties :=
  match searches.findSome? fun s => (regexSearch line s.2).map fun word => (s.1, word) with
  | some (field, word) => Function.update props field (Numerals.strtoul word)
  | none => props

def parseKFDProperties (props_file : List Char) : Properties :=
  (TextLines.getLines '\n' props_file).foldl readLine fun _ => 0#64

def Field.key : Field → String
  | .cpu_cores_count => "cpu_cores_count"
  | .simd_count => "simd_count"
  | .mem_banks_count => "mem_banks_count"
  | .caches_count => "caches_count"
  | .io_links_count => "io_links_count"
  | .p2p_links_count => "p2p_links_count"
  | .cpu_core_id_base => "cpu_core_id_base"
  | .simd_id_base => "simd_id_base"
  | .max_waves_per_simd => "max_waves_per_simd"
  | .lds_size_in_kb => "lds_size_in_kb"
  | .gds_size_in_kb => "gds_size_in_kb"
  | .num_gws => "num_gws"
  | .wave_front_size => "wave_front_size"
  | .array_count => "array_count"
  | .simd_arrays_per_engine => "simd_arrays_per_engine"
  | .cu_per_simd_array => "cu_per_simd_array"
  | .simd_per_cu => "simd_per_cu"
  | .max_slots_scratch_cu => "max_slots_scratch_cu"
  | .gfx_target_version => "gfx_target_version"
  | .vendor_id => "vendor_id"
  | .device_id => "device_id"
  | .location_id => "location_id"
  | .domain_id => "domain"
  | .drm_render_minor => "drm_render_minor"
  | .hive_id => "hive_id"
  | .num_sdma_engines => "num_sdma_engines"
  | .num_sdma_xgmi_engines => "num_sdma_xgmi_engines"
  | .num_sdma_queues_per_engine => "num_sdma_queues_per_engine"
  | .num_cp_queues => "num_cp_queues"
  | .max_engine_clk_fcompute => "max_engine_clk_fcompute"
  | .local_mem_size => "local_mem_size"
  | .fw_version => "fw_version"
  | .capability => "capability"
  | .debug_prop => "debug_prop"
  | .sdma_fw_version => "sdma_fw_version"
  | .unique_id => "unique_id"
  | .num_xcc => "num_xcc"
  | .max_engine_clk_ccompute => "max_engine_clk_ccompute"

def propertyLine (values : Properties) (f : Field) : List Char :=
  f.key.toList ++ ' ' :: Numerals.digits 10 (values f).toNat

def propertiesFile (values : Properties) (order : List Field) : List Char :=
  TextLines.unlines '\n' (order.map (propertyLine values))

end Rocsift.Kfd

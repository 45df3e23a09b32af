import RtkdataFw.Config
import RtkdataFw.Lib.Numeral

/-!
# The configuration items

`CONFIG_ITEMS`, item by item, with the NTRIP servers as one family.

* `configItems` — the table;
* `key_inj` — an item is known by its key.
-/

namespace RtkdataFw.Config

open RtkdataFw.Lib

def numberItem (key : String) (type : ItemType) (secret : Bool) (bits : ℕ) : ConfigItem :=
  ⟨key, type, secret, ⟨bits, CStr.empty, []⟩⟩

def stringItem (key : String) (secret : Bool) (text : String) : ConfigItem :=
  ⟨key, .string, secret, ⟨0, CStr.ofBytes (ascii text), []⟩⟩

def ipItem (key : String) (a b c d : ℕ) : ConfigItem :=
  numberItem key .ip false (espNetifHtonl (espNetifIp4Makeu32 a b c d))

/-- The items of one NTRIP server: `KEY_CONFIG_NTRIP_SERVER_*` with the suffix of the server. -/
def ntripServerItems (suffix : String) (active : ℕ) : List ConfigItem := [
  numberItem ("ntr_srv_actv" ++ suffix) .bool false active,
  numberItem ("ntr_srv_color" ++ suffix) .color false 0x00000055,
  stringItem ("ntr_srv_host" ++ suffix) false "",
  numberItem ("ntr_srv_port" ++ suffix) .uint16 false 2101,
  stringItem ("ntr_srv_mp" ++ suffix) false "",
  stringItem ("ntr_srv_user" ++ suffix) false "",
  stringItem ("ntr_srv_pass" ++ suffix) true ""]

def adminItems : List ConfigItem := [
  numberItem "adm_auth" .int8 false 0,
  stringItem "adm_user" false "",
  stringItem "adm_pass" true ""]

def bluetoothItems : List ConfigItem := [
  numberItem "bt_active" .bool false 0,
  stringItem "bt_dev_name" false "",
  numberItem "bt_dev_vis" .bool false 1,
  numberItem "bt_pin_code" .uint16 true 1234]

def socketItems : List ConfigItem := [
  numberItem "sck_srv_active" .bool false 0,
  numberItem "sck_srv_color" .color false 0x00000055,
  numberItem "sck_srv_t_port" .uint16 false 23,
  numberItem "sck_srv_u_port" .uint16 false 23,
  numberItem "sck_cli_active" .bool false 0,
  numberItem "sck_cli_color" .color false 0x00000055,
  stringItem "sck_cli_host" false "",
  numberItem "sck_cli_port" .uint16 false 23,
  numberItem "sck_cli_type" .bool false 1,
  stringItem "sck_cli_msg" false "\n"]

def uartItems : List ConfigItem := [
  numberItem "uart_num" .uint8 false 0,
  numberItem "uart_tx_pin" .uint8 false 1,
  numberItem "uart_rx_pin" .uint8 false 3,
  numberItem "uart_rts_pin" .uint8 false 14,
  numberItem "uart_cts_pin" .uint8 false 33,
  numberItem "uart_baud_rate" .uint32 false 115200,
  numberItem "uart_data_bits" .int8 false 3,
  numberItem "uart_stop_bits" .int8 false 1,
  numberItem "uart_parity" .int8 false 0,
  numberItem "uart_fc_rts" .bool false 0,
  numberItem "uart_fc_cts" .bool false 0,
  numberItem "uart_log_fwd" .bool false 0]

def wifiItems : List ConfigItem := [
  numberItem "w_ap_active" .bool false 1,
  numberItem "w_ap_color" .color false 0x00000055,
  stringItem "w_ap_ssid" false "",
  numberItem "w_ap_ssid_hid" .bool false 0,
  numberItem "w_ap_auth_mode" .uint8 false 0,
  stringItem "w_ap_pass" true "",
  ipItem "w_ap_gw" 192 168 4 1,
  numberItem "w_ap_subnet" .uint8 false 24,
  numberItem "w_sta_active" .bool false 1,
  numberItem "w_sta_color" .color false 0x0044ff55,
  stringItem "w_sta_ssid" false "",
  stringItem "w_sta_pass" true "",
  numberItem "w_sta_scan_mode" .bool false 0,
  numberItem "w_sta_ap_fwd" .bool false 0,
  numberItem "w_sta_static" .bool false 0,
  ipItem "w_sta_ip" 192 168 0 100,
  ipItem "w_sta_gw" 192 168 0 1,
  numberItem "w_sta_subnet" .uint8 false 24,
  ipItem "w_sta_dns_a" 1 1 1 1,
  ipItem "w_sta_dns_b" 1 0 0 1]

def modeItems : List ConfigItem := [
  numberItem "mode_active" .uint16 false 0,
  numberItem "mode_color" .color false 0x0044ff55]

def rtkItems : List ConfigItem := [
  stringItem "rtk_ie_host" false "integrity-engine.onrender.com",
  stringItem "rtk_dev_id" false "",
  stringItem "rtk_sta_tok" true "",
  numberItem "rtk_state" .uint8 false 0,
  stringItem "rtk_ota_base" false "",
  stringItem "rtk_enr_key" true "",
  numberItem "rtk_key_ver" .uint8 false 1]

/-- `CONFIG_ITEMS`. -/
def configItems : List ConfigItem :=
  adminItems ++ bluetoothItems ++ ntripServerItems "" 1 ++ ntripServerItems "_1" 0 ++ ntripServerItems "_2" 0 ++
    ntripServerItems "_3" 0 ++ ntripServerItems "_4" 0 ++ ntripServerItems "_5" 0 ++ ntripServerItems "_6" 0 ++
    ntripServerItems "_7" 0 ++ ntripServerItems "_8" 0 ++ ntripServerItems "_9" 0 ++ socketItems ++ uartItems ++
    wifiItems ++ modeItems ++ rtkItems

/-- The bytes of a key as a number. -/
def keyNumber (key : String) : ℕ := key.toByteArray.data.toList.foldl (fun n c => 256 * n + c.toNat) 0

/-- Numbers are compared faster than strings. -/
theorem keyNumbers_nodup : (configItems.map fun item => keyNumber item.key).Nodup := by decide +kernel

/-- **An item is known by its key.** -/
theorem key_inj {item item' : ConfigItem} (h : item ∈ configItems) (h' : item' ∈ configItems)
    (hkey : item.key = item'.key) : item = item' :=
  List.inj_on_of_nodup_map keyNumbers_nodup h h' (by rw [hkey])

end RtkdataFw.Config

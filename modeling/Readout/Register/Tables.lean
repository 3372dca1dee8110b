import Readout.Register.Block
/-!
# Default tables

The registers of the board with their defaults.  The three Ethernet interfaces share one layout
and differ in their addresses; each has a block for its physical layer, whose registers change as
`(old AND mask) OR bits`.  The last block configures the converters.
-/

namespace Readout.Tables

open Register (atDefault unused)

def adcBlock : String := "ADCConfigBlock"
def adcOutput : String := "ADC_Output_Config"
def adcSkips : String := "ADC_CDS_NSkips"
def adcSamples : String := "ADC_CDS_NSamples"
def adcTriggerSamples : String := "ADC_Trigger_Samples"

/-- The bit of the output register that selects correlated double sampling. -/
def doubleSampling : UInt16 := 0x0002

/-- What is particular to one Ethernet interface. -/
structure Interface where
  block : String
  address : UInt8
  mac : Register
  serverMac : List Register
  ip : Register
  serverIp : Register
  tse : Register
  udp : Register

/-- The block of an Ethernet interface. -/
def Interface.toBlock (i : Interface) : Block where
  address := i.address
  name := i.block
  registers :=
    [i.mac,
      atDefault 0x2233 0x01 "ENET_MAC1" "Mac address bits[31:16] for Ethernet interface",
      atDefault 0xEE11 0x02 "ENET_MAC2" "Mac address bits[47:32] for Ethernet interface",
      unused 0x03] ++
    i.serverMac ++
    [unused 0x07,
      i.ip,
      atDefault 0xC0A8 0x09 "ENET_IP1" "IP address bits [31:16] for Ethernet interface",
      i.serverIp,
      atDefault 0xC0A8 0x0B "ENET_ServerIP1"
        "Server IP address bits [31:16] for Ethernet interface",
      i.tse,
      atDefault 0x0050 0x0D "ENET_TSE1" "TSE configuration bits [31:16] for TSE MAC",
      i.udp,
      unused 0x0F,
      atDefault 0x0555 0x10 "ENET_FIFO" "FIFO enable flags for Ethernet interfaces",
      atDefault 0x0000 0x11 "ENET_CounterEnable" "Counter enable flags for Ethernet interface",
      atDefault 0x012C 0x12 "ENET_PacketSize"
        "Packet size (in 32-bit words) for Ethernet interfaces",
      unused 0x13,
      atDefault 0x0007 0x14 "ENET_HeaderConfig" "Ethernet header configuration",
      unused 0x15]

/-- The server of both optical interfaces. -/
def opticalServerMac : List Register :=
  [atDefault 0x7434 0x04 "SFP_ServerMAC0" "Mac address bits[15:0] for SFP0/1 interface",
    atDefault 0x1151 0x05 "SFP_ServerMAC1" "Mac address bits[31:16] for SFP0/1 interface",
    atDefault 0x6CB3 0x06 "SFP_ServerMAC2" "Mac address bits[47:32] for SFP0/1 interface"]

/-- An optical interface. -/
def optical (block : String) (address : UInt8) (mac ip udp : Register) : Interface where
  block := block
  address := address
  mac := mac
  serverMac := opticalServerMac
  ip := ip
  serverIp :=
    atDefault 0x0001 0x0A "SFP_ServerIP0" "Server IP address bits [15:0] for SFP0/1 interfaces"
  tse := atDefault 0x0058 0x0C "SFP_TSE0"
    "TSE configuration bits [15:0] for TSE MAC (SFP interface)"
  udp := udp

def optical0 : Interface :=
  optical "SFP0ConfigBlock" 0x10
    (atDefault 0x4455 0x00 "SFP0_MAC0" "Mac address bits[15:0] for SFP0 interface")
    (atDefault 0x0003 0x08 "SFP_IP0" "IP address bits [15:0] for SFP interface")
    (atDefault 0x1000 0x0E "SFP0_UDP" "Base UDP address for SFP0 interface")

def optical1 : Interface :=
  optical "SFP1ConfigBlock" 0x11
    (atDefault 0x4456 0x00 "SFP1_MAC0" "Mac address bits[15:0] for SFP1 interface")
    (atDefault 0x0004 0x08 "SFP_IP0" "IP address bits [15:0] for SFP interface")
    (atDefault 0x1100 0x0E "SFP1_UDP" "Base UDP address for SFP1 interface")

/-- The copper interface. -/
def copper : Interface where
  block := "RJ45ConfigBlock"
  address := 0x12
  mac := atDefault 0x4457 0x00 "RJ45_MAC0" "Mac address bits[15:0] for RJ45 interface"
  serverMac :=
    [atDefault 0x0275 0x04 "RJ45_ServerMAC0" "Server Mac address bits[15:0] for RJ45 interface",
      atDefault 0x0C22 0x05 "RJ45_ServerMAC1" "Server Mac address bits[31:16] for RJ45 interface",
      atDefault 0x000E 0x06 "RJ45_ServerMAC2" "Server Mac address bits[47:32] for RJ45 interface"]
  ip := atDefault 0x0105 0x08 "RJ45_IP0" "IP address bits [15:0] for RJ45 interface"
  serverIp :=
    atDefault 0x0101 0x0A "RJ45_ServerIP0" "Server IP address bits [15:0] for RJ45 interface"
  tse := atDefault 0x00D8 0x0C "RJ45_TSE0"
    "TSE configuration bits [15:0] for TSE MAC (RJ45 interface)"
  udp := atDefault 0x1200 0x0E "RJ45_UDP" "Base UDP address for RJ45 interface"

/-- The block of a physical layer. -/
def physicalLayer (address : UInt8) (name : String) : Block where
  address := address
  name := name
  registers :=
    [atDefault 0x0140 0x00 "TSE_MDIO_Ctrl0_OR" "MDIO Control Register OR bits",
      atDefault 0x937F 0x01 "TSE_MDIO_Ctrl0_AND" "MDIO Control Register AND bits",
      atDefault 0x0000 0x02 "TSE_MDIO_AN_OR" "MDIO Autonegotiation register OR bits",
      atDefault 0xFC1F 0x03 "TSE_MDIO_AN_AND" "MDIO Autonegotiation register AND bits",
      atDefault 0x0000 0x04 "TSE_MDIO_1000BASE_OR" "MDIO 1000BASE Register OR bits",
      atDefault 0xFFFF 0x05 "TSE_MDIO_1000BASE_AND" "MDIO 1000BASE Register AND bits",
      atDefault 0xC000 0x06 "TSE_MDIO_PHYCtrl_OR" "MDIO PHY Control Register OR bits",
      atDefault 0xFFFF 0x07 "TSE_MDIO_PHYCtrl_AND" "MDIO PHY Control Register AND bits",
      atDefault 0x0004 0x08 "TSE_MDIO_ExtPHYStat_OR" "MDIO Extended PHY Status Register OR bits",
      atDefault 0xFFF4 0x09 "TSE_MDIO_ExtPHYStat_AND" "MDIO Extended PHY Status Register AND bits",
      atDefault 0x0000 0x0A "TSE_MDIO_ExtPHYCtrl_OR" "MDIO Extended PHY Control Register OR bits",
      atDefault 0xFFFF 0x0B "TSE_MDIO_ExtPHYCtrl_AND"
        "MDIO Extended PHY Control Register AND bits",
      atDefault 0x03D8 0x0C "TSE_MDIO_ResetCycles0"
        "Clock cycles (bits [15:0]) to wait during a HW reset",
      atDefault 0x0000 0x0D "TSE_MDIO_ResetCycles1"
        "Clock cycles (bits [31:16]) to wait during a HW reset",
      atDefault 0x4240 0x0E "TSE_MDIO_WaitCycles0"
        "Clock cycles (bits [15:0]) to wait after a HW reset before configuring the PHY",
      atDefault 0x000F 0x0F "TSE_MDIO_WaitCycles1"
        "Clock cycles (bits [31:16]) to wait after a HW reset before configuring the PHY"]

/-- The block of the converters. -/
def converters : Block where
  address := 0x20
  name := adcBlock
  registers :=
    [atDefault 0x0004 0x00 "ADC_Tap_Delays"
        ("Tap delay for the 20-bit 1.6 Msps ADCs. Bits [2:0] set input tap delay, " ++
          "bits [6:4] control output tap delay, " ++
          "bits [11:8] control LVDS tap delay for CDS module"),
      atDefault 0x0000 0x02 adcOutput
        ("Output config for the 20-bit ADCs. [0] LVDS, [1] CDS, [2] integral mode, " ++
          "[3] trigger mode"),
      atDefault 0x0001 0x04 adcSkips "Number of skips to perform CDS over",
      atDefault 0x0001 0x05 "ADC_CDS_Config"
        ("Config for CDS block (bit 0 controls output average if hi, " ++
          "output sum of pixels if low)"),
      atDefault 0x0001 0x06 adcSamples "Number of samples to read in integral mode",
      atDefault 0x0000 0x07 adcTriggerSamples
        "Number of samples to read per trigger in triggered mode",
      atDefault 0x0000 0x08 "ADC_Trigger_Delay"
        "Number of 100 MHz clock cycles to wait before starting CNVST",
      atDefault 0x0001 0x09 "ADC_Data_Multiplier"
        "Multiplier to apply to ADC data before CDS module"]

/-- All blocks, in the order in which they are sent. -/
def blocks : List Block :=
  [optical0.toBlock, optical1.toBlock, copper.toBlock,
    physicalLayer 0x13 "SFP0TSEConfigBlock", physicalLayer 0x14 "SFP1TSEConfigBlock",
    physicalLayer 0x15 "RJ45TSEConfigBlock", converters]

end Readout.Tables
